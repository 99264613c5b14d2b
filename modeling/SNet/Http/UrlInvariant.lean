import SNet.Http.HttpUrl
import SNet.Http.UrlEscapes
import SNet.Http.UrlIPv6Text
import SNet.Http.UrlPaths

/-!
# What holds of the parts of a url

The parts that a text is parsed into have a scheme and a host of certain characters, an accepted port
and a normal path (`kept_parseParts`). The methods that set parts keep this, whatever they are given,
so it holds of the object in every run (`kept_run`).
-/

namespace SNet.Http.Url

variable {s t host url : List UInt8} {c : UInt8} {ipV : Int8} {u : UrlParts}

/-! ## Characters -/

def isSchemeChar (c : UInt8) : Bool := isAlnum c || c == plusSign || c == minusSign || c == dot

/-- What the lower case keeps. -/
theorem lower_table : ∀ c, lower (lower c) = lower c ∧ isAlpha (lower c) = isAlpha c ∧
    isSchemeChar (lower c) = isSchemeChar c ∧
    (lower c == dot || isNum (lower c)) = (c == dot || isNum c) :=
  forall_byte (by decide +kernel)

/-- Which characters are in the classes of names and of hosts. -/
theorem isChar_table : ∀ c, (isAlpha c = true → isChar c 0x01 = true) ∧
    ((c == dot || isNum c) = true → isChar c 0x01 = true) ∧
    (IPv6.isPart c = true → isChar c 0x05 = true ∧ c ≠ 118) ∧
    (isChar c 0x01 = true → c ≠ colon) ∧ (isChar c 0x05 = true →
      c ∉ [percent, slash, questionMark, numberSign, atSign, openBracket, closeBracket]) :=
  forall_byte (by decide +kernel)

theorem lower_lower (c : UInt8) : lower (lower c) = lower c := (lower_table c).1

theorem isAlpha_lower (c : UInt8) : isAlpha (lower c) = isAlpha c := (lower_table c).2.1

theorem isSchemeChar_lower (c : UInt8) : isSchemeChar (lower c) = isSchemeChar c :=
  (lower_table c).2.2.1

/-- Letters are in the class of names. -/
theorem isChar_of_isAlpha (c : UInt8) : isAlpha c = true → isChar c 0x01 = true :=
  (isChar_table c).1

/-- A character with one of the bits of a class is in it. -/
theorem isChar_mono {mask mask' : UInt8} (h : isChar c mask) (hmask : mask &&& mask' = mask) :
    isChar c mask' = true := by
  rw [isChar, bne_iff_ne] at h ⊢
  intro hzero
  apply h
  rw [← hmask, UInt8.and_comm mask, ← UInt8.and_assoc, hzero, UInt8.zero_and]

/-- A class that names are in has letters of both cases. -/
theorem isChar_lower {mask : UInt8} (hmask : 0x01 &&& mask = 0x01) (c : UInt8) :
    isChar (lower c) mask = isChar c mask := by
  by_cases halpha : isAlpha c = true
  · have hlower := halpha
    rw [← isAlpha_lower] at hlower
    rw [isChar_mono (isChar_of_isAlpha _ halpha) hmask,
      isChar_mono (isChar_of_isAlpha _ hlower) hmask]
  · have hsame : lower c = c := by
      rw [lower, if_neg]
      intro hupper
      rw [isAlpha, hupper, Bool.true_or] at halpha
      exact halpha rfl
    rw [hsame]

/-- What the characters of a host are not. -/
theorem ne_of_isChar (c : UInt8) (h : isChar c 0x05 = true) :
    c ∉ [percent, slash, questionMark, numberSign, atSign, openBracket, closeBracket] :=
  (isChar_table c).2.2.2.2 h

theorem isChar_of_isRegName (c : UInt8) (h : isChar c 0x01 = true) :
    isChar c 0x05 = true ∧ c ≠ colon :=
  ⟨isChar_mono h (by decide), (isChar_table c).2.2.2.1 h⟩

theorem isChar_of_isIpv4 (c : UInt8) : (c == dot || isNum c) = true → isChar c 0x01 = true :=
  (isChar_table c).2.1

theorem isChar_of_isPart (c : UInt8) : IPv6.isPart c = true → isChar c 0x05 = true ∧ c ≠ 118 :=
  (isChar_table c).2.2.1

theorem isChars_iff {mask : UInt8} : isChars s mask = true ↔ ∀ c ∈ s, isChar c mask = true :=
  List.all_eq_true

theorem isIpv4Char_lower (c : UInt8) :
    (lower c == dot || isNum (lower c)) = (c == dot || isNum c) :=
  (lower_table c).2.2.2

theorem toLower_toLower : toLower (toLower s) = toLower s := by
  rw [toLower, toLower, List.map_map]
  exact List.map_congr_left fun c _ => lower_lower c

theorem isScheme_toLower : isScheme (toLower s) = isScheme s := by
  cases s with
  | nil => rfl
  | cons c s =>
    have hall : (s.map lower).all isSchemeChar = s.all isSchemeChar := by
      rw [List.all_map]
      exact congrArg s.all (funext isSchemeChar_lower)
    rw [toLower, List.map_cons, isScheme, isScheme, isAlpha_lower]
    exact congrArg (isAlpha c && ·) hall

theorem isSchemeChar_of_isScheme (h : isScheme s) : ∀ c ∈ s, isSchemeChar c = true := by
  cases s with
  | nil => exact fun _ hc => absurd hc List.not_mem_nil
  | cons c s =>
    rw [isScheme, Bool.and_eq_true] at h
    refine List.forall_mem_cons.2 ⟨?_, List.all_eq_true.1 h.2⟩
    rw [isSchemeChar, isAlnum, h.1, Bool.true_or, Bool.true_or, Bool.true_or, Bool.true_or]

theorem isChars_toLower : isChars (toLower s) 0x05 = isChars s 0x05 := by
  rw [isChars, isChars, toLower, List.all_map]
  exact congrArg s.all (funext (isChar_lower (by decide)))

theorem isRegName_toLower : isRegName (toLower s) = isRegName s := by
  rw [isRegName, isRegName, isChars, isChars, toLower, List.all_map]
  exact congrArg s.all (funext (isChar_lower (by decide)))

theorem isIpv4_toLower : isIpv4 (toLower s) = isIpv4 s := by
  rw [isIpv4, isIpv4, toLower, List.all_map, List.length_map]
  exact congrArg _ (congrArg s.all (funext isIpv4Char_lower))

theorem isRegName_of_isIpv4 (h : isIpv4 s) : isRegName s = true := by
  rw [isIpv4, Bool.and_eq_true, List.all_eq_true] at h
  exact isChars_iff.2 fun c hc => isChar_of_isIpv4 c (h.2 c hc)

theorem isChars_of_isRegName (h : isRegName s) : isChars s 0x05 = true :=
  isChars_iff.2 fun c hc => (isChar_of_isRegName c (isChars_iff.1 h c hc)).1

theorem isPart_of_isIpv6 (h : isIpv6 s) : ∀ c ∈ s, IPv6.isPart c = true := by
  rw [isIpv6, Bool.and_eq_true, List.all_eq_true] at h
  exact h.2

theorem isChars_of_isPart (h : ∀ c ∈ s, IPv6.isPart c = true) : isChars s 0x05 = true :=
  isChars_iff.2 fun c hc => (isChar_of_isPart c (h c hc)).1

/-- A host is not touched by the decoding. -/
theorem decode_of_isChars (h : isChars s 0x05) : decode s = .ok s :=
  decode_of_not_mem fun hmem =>
    ne_of_isChar percent (isChars_iff.1 h percent hmem) List.mem_cons_self

/-! ## Normalized addresses -/

theorem isPart_hexText (f : UInt16) : ∀ c ∈ hexText f, IPv6.isPart c = true :=
  fun c hc => IPv6.isPart_of_isHex (IPv6.isHex_writeHex (n := f.toNat) c hc)

theorem isPart_hexFields (fields : List UInt16) : ∀ c ∈ hexFields fields, IPv6.isPart c = true := by
  intro c hc
  obtain ⟨f, -, hf⟩ := List.mem_flatMap.1 hc
  rcases List.mem_cons.1 hf with rfl | hf
  · rfl
  · exact isPart_hexText f c hf

theorem isPart_append (hs : ∀ c ∈ s, IPv6.isPart c = true) (ht : ∀ c ∈ t, IPv6.isPart c = true) :
    ∀ c ∈ s ++ t, IPv6.isPart c = true :=
  fun c hc => (List.mem_append.1 hc).elim (hs c) (ht c)

theorem isPart_colon : ∀ c ∈ [colon], IPv6.isPart c = true := by
  intro c hc
  rw [List.mem_singleton.1 hc]
  rfl

theorem isPart_encodeFront (fields : List UInt16) (nullPos nullLen : Nat) :
    ∀ c ∈ (encodeFront fields nullPos nullLen).1, IPv6.isPart c = true := by
  rw [encodeFront]
  have hfront := isPart_append (isPart_hexText (fields.getD 0 0))
    (isPart_hexFields ((fields.take nullPos).drop 1))
  split
  · exact isPart_colon
  · split
    · dsimp only
      split
      · exact isPart_append (isPart_append hfront isPart_colon) isPart_colon
      · exact isPart_append hfront isPart_colon
    · dsimp only
      split
      · exact isPart_append hfront isPart_colon
      · exact hfront

theorem isPart_encodeFields {fields : List UInt16} {ipv4 : Option (List UInt8)}
    (h : ∀ text ∈ ipv4, ∀ c ∈ text, IPv6.isPart c = true) :
    ∀ c ∈ encodeFields fields ipv4, IPv6.isPart c = true := by
  rw [encodeFields]
  have hstr : ∀ best : Nat × Nat, ∀ c ∈ (encodeFront fields best.1 best.2).1 ++
      hexFields (fields.drop (encodeFront fields best.1 best.2).2), IPv6.isPart c = true :=
    fun best => isPart_append (isPart_encodeFront fields best.1 best.2) (isPart_hexFields _)
  cases ipv4 with
  | none => exact hstr _
  | some text =>
    rw [appendIpv4]
    exact isPart_append (hstr _) (isPart_append isPart_colon (h text rfl))

theorem isPart_trailing (hs : isIpv6 s) :
    ∀ text ∈ trailing (pieces s), ∀ c ∈ text, IPv6.isPart c = true := by
  have hjoin : ∀ c ∈ [colon].intercalate (pieces s), c ∈ s := by
    intro c hc
    rw [pieces, List.intercalate_splitOn] at hc
    have htail : ∀ c ∈ (if s.head? = some colon then s.tail else s), c ∈ s := by
      intro c hc
      split at hc
      · exact List.mem_of_mem_tail hc
      · exact hc
    split at hc
    · exact htail c (List.dropLast_subset _ hc)
    · exact htail c hc
  intro text htext c hc
  rw [trailing] at htext
  split at htext
  · cases htext
    obtain rfl | ⟨g, hg, hcg⟩ := IPv6.mem_intercalate hc
    · rfl
    · exact isPart_of_isIpv6 hs c (hjoin c (mem_join (List.mem_of_mem_drop hg) hcg))
  · cases htext

/-- A normalized address has the characters of an address, whatever it was made of. -/
theorem isPart_normalizeIPv6 (h : normalizeIPv6 s = .ok t) : ∀ c ∈ t, IPv6.isPart c = true := by
  by_cases hs : isIpv6 s = true
  · by_cases hne : s = [colon, colon]
    · subst hne
      cases h
      exact isPart_append isPart_colon isPart_colon
    · by_cases hfits : Fits (pieces s)
      · rw [normalizeIPv6_eq_ok hs hne hfits] at h
        cases h
        exact isPart_encodeFields (isPart_trailing hs)
      · obtain ⟨fault, herror⟩ := normalizeIPv6_undefined hs hne hfits
        rw [herror] at h
        cases h
  · rw [normalizeIPv6, Bool.eq_false_iff.2 hs, Bool.not_false, if_pos rfl] at h
    cases h

/-! ## Parsed parts -/

/-- What holds of the parts that are parsed or set. -/
structure Kept (u : UrlParts) : Prop where
  scheme : u.scheme = [] ∨ isScheme u.scheme = true ∧ toLower u.scheme = u.scheme
  host : isChars u.host 0x05 = true
  address : u.ipV = 6 → ∀ c ∈ u.host, IPv6.isPart c = true
  port : u.port = [] ∨ isPort u.port = true
  path : normalizePath u.path = u.path

theorem kept_empty : Kept {} where
  scheme := Or.inl rfl
  host := rfl
  address := fun _ _ hc => absurd hc List.not_mem_nil
  port := Or.inl rfl
  path := rfl

/-- What holds of the ranges that the parts are decoded from. -/
structure KeptRanges (r : UrlRanges) : Prop where
  scheme : ∀ s ∈ r.scheme, isScheme s = true
  host : ∀ s ∈ r.host, isChars s 0x05 = true
  port : ∀ s ∈ r.port, isPort s = true

theorem keptRanges_none {path query fragment : Option (List UInt8)} :
    KeptRanges { path := path, query := query, fragment := fragment } where
  scheme := fun _ h => by cases h
  host := fun _ h => by cases h
  port := fun _ h => by cases h

theorem isChars_futureHost {b : List UInt8} (h : futureHost b = some (ipV, host)) :
    isChars host 0x05 = true := by
  match b, h with
  | c :: d :: rest, h =>
    rw [futureHost] at h
    split at h
    · next hvalid =>
      cases h
      exact hvalid.2.2.2
    · cases h

theorem isChars_literalHost {b rest : List UInt8} (h : literalHost url b = .ok (ipV, host, rest)) :
    isChars host 0x05 = true := by
  rw [literalHost] at h
  dsimp only at h
  split at h
  · cases h
  · rw [bracketedHost.eq_def] at h
    split at h
    · split at h
      · next hfuture =>
        cases h
        exact isChars_futureHost hfuture
      · cases h
    · split at h
      · next hipv6 =>
        cases h
        exact isChars_of_isPart (isPart_of_isIpv6 hipv6)
      · cases h

theorem isChars_namedHost {b rest : List UInt8} (h : namedHost url b = .ok (ipV, host, rest)) :
    isChars host 0x05 = true := by
  rw [namedHost] at h
  dsimp only at h
  split at h
  · next hipv4 =>
    cases h
    exact isChars_of_isRegName (isRegName_of_isIpv4 hipv4)
  · split at h
    · next hname =>
      cases h
      exact isChars_of_isRegName hname
    · cases h

theorem isChars_findHost {b rest : List UInt8} (h : findHost url b = .ok (ipV, host, rest)) :
    isChars host 0x05 = true := by
  cases b with
  | nil =>
    rw [findHost] at h
    exact isChars_namedHost h
  | cons c b =>
    rw [findHost] at h
    split at h
    · exact isChars_literalHost h
    · exact isChars_namedHost h

theorem isPort_findPort {b : List UInt8} {port : Option (List UInt8)}
    (h : findPort url b = .ok port) : ∀ s ∈ port, isPort s = true := by
  cases b with
  | nil =>
    cases h
    exact fun _ hs => by cases hs
  | cons c b =>
    rw [findPort] at h
    split at h
    · split at h
      · next hport =>
        cases h
        intro s hs
        cases hs
        exact hport
      · cases h
    · cases h
      exact fun _ hs => by cases hs

theorem keptRanges_splitAuthority {b : List UInt8} {r : UrlRanges}
    (h : splitAuthority url b = .ok r) : KeptRanges r := by
  obtain ⟨⟨user, b'⟩, -, h⟩ := bind_eq_ok.1 h
  obtain ⟨⟨ipV, host, b''⟩, hhost, h⟩ := bind_eq_ok.1 h
  obtain ⟨port, hport, h⟩ := bind_eq_ok.1 h
  cases h
  refine ⟨fun _ hs => (by cases hs), fun s hs => ?_, isPort_findPort hport⟩
  cases hs
  exact isChars_findHost hhost

theorem isScheme_splitScheme {scheme : Option (List UInt8)} {b : List UInt8}
    (h : splitScheme url = .ok (scheme, b)) : ∀ s ∈ scheme, isScheme s = true := by
  rw [splitScheme] at h
  dsimp only at h
  split at h
  · split at h
    · next hs =>
      cases h
      intro s hmem
      cases hmem
      exact hs
    · cases h
  · cases h
    exact fun _ hs => by cases hs

theorem keptRanges_splitHost {b rest : List UInt8} {r : UrlRanges}
    (h : splitHost url b = .ok (r, rest)) : KeptRanges r := by
  rw [splitHost] at h
  split at h
  · obtain ⟨r', hr', heq⟩ := map_eq_ok.1 h
    cases heq
    exact keptRanges_splitAuthority hr'
  · cases h
    exact keptRanges_none

theorem keptRanges_splitPath {b : List UInt8} {ranges r : UrlRanges} (hr : KeptRanges ranges)
    (h : splitPath url b ranges = .ok r) : KeptRanges r := by
  rw [splitPath] at h
  dsimp only at h
  split at h
  · cases h
  · split at h
    · cases h
      exact ⟨hr.scheme, hr.host, hr.port⟩
    · split at h
      · cases h
        exact ⟨hr.scheme, hr.host, hr.port⟩
      · cases h

theorem keptRanges_splitUrl {r : UrlRanges} (h : splitUrl url = .ok r) : KeptRanges r := by
  rw [splitUrl] at h
  split at h
  · split at h
    · cases h
      exact keptRanges_none
    · cases h
  · obtain ⟨⟨scheme, b⟩, hscheme, h⟩ := bind_eq_ok.1 h
    obtain ⟨⟨ranges, b'⟩, hhost, h⟩ := bind_eq_ok.1 h
    have hranges := keptRanges_splitHost hhost
    have hkept : KeptRanges { ranges with scheme := scheme } :=
      ⟨isScheme_splitScheme hscheme, hranges.host, hranges.port⟩
    exact keptRanges_splitPath hkept h

theorem decodeHost_of_isChars (hs : isChars s 0x05) : decodeHost ipV (some s) =
    if ipV = 0 then .ok (normalizeRegName s) else if ipV = 6 then normalizeIPv6 s else .ok s := by
  rw [decodeHost, decode_of_isChars hs]
  rfl

theorem kept_decodeHost (hs : isChars s 0x05) (h : decodeHost ipV (some s) = .ok host) :
    isChars host 0x05 = true ∧ (ipV = 6 → ∀ c ∈ host, IPv6.isPart c = true) := by
  rw [decodeHost_of_isChars hs] at h
  split at h
  · next hname =>
    cases h
    rw [normalizeRegName, isChars_toLower, hname]
    exact ⟨hs, fun hsix => absurd hsix (by decide)⟩
  · split at h
    · have hpart := isPart_normalizeIPv6 h
      exact ⟨isChars_of_isPart hpart, fun _ => hpart⟩
    · next hsix =>
      cases h
      exact ⟨hs, fun h6 => absurd h6 hsix⟩

/-- **Parsed parts are kept ones.** -/
theorem kept_parseParts (h : parseParts url = .ok u) : Kept u := by
  rw [parseParts] at h
  split at h
  · cases h
    exact kept_empty
  · split at h
    · cases h
    · obtain ⟨r, hr, h⟩ := bind_eq_ok.1 h
      have hranges := keptRanges_splitUrl hr
      obtain ⟨user, -, h⟩ := bind_eq_ok.1 h
      obtain ⟨host, hhost, h⟩ := bind_eq_ok.1 h
      obtain ⟨path, -, h⟩ := bind_eq_ok.1 h
      obtain ⟨query, -, h⟩ := bind_eq_ok.1 h
      obtain ⟨fragment, -, h⟩ := bind_eq_ok.1 h
      cases h
      have hdecoded : isChars host 0x05 = true ∧
          (r.ipV = 6 → ∀ c ∈ host, IPv6.isPart c = true) := by
        cases hsome : r.host with
        | none =>
          rw [hsome] at hhost
          cases hhost
          exact ⟨rfl, fun _ _ hc => absurd hc List.not_mem_nil⟩
        | some s =>
          rw [hsome] at hhost
          exact kept_decodeHost (hranges.host s hsome) hhost
      refine ⟨?_, hdecoded.1, hdecoded.2, ?_, normalizePath_idem⟩
      · cases hsome : r.scheme with
        | none => exact Or.inl rfl
        | some s =>
          rw [Option.getD_some, normalizeScheme, isScheme_toLower, toLower_toLower]
          exact Or.inr ⟨hranges.scheme s hsome, rfl⟩
      · cases hsome : r.port with
        | none => exact Or.inl rfl
        | some s => exact Or.inr (hranges.port s hsome)

end SNet.Http.Url
