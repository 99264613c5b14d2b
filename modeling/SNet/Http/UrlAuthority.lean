import SNet.Http.UrlInvariant
import SNet.Http.UrlNumerals

/-!
# The authority

The user info, the host and the port are found again in what is written for them exactly when the
user info has no character that is encoded, the host is recognized as what it was, and the port is
not the one that is left out (`restores_iff`).
-/

namespace SNet.Http.Url

variable {url s t rest b host user port : List UInt8} {c mask : UInt8} {ipV : Int8}
  {u : UrlParts} {r : UrlRanges}

/-! ## User info -/

theorem encodeChar_cases (h : encodeChar (fun _ => none) mask c = .ok t) :
    isChar c mask = true ∧ t = [c] ∨ ∃ a b, t = [percent, a, b] := by
  rw [encodeChar] at h
  dsimp only at h
  split at h
  · next hc =>
    cases h
    exact Or.inl ⟨hc, rfl⟩
  · rw [percentEncode] at h
    split at h
    · cases h
      exact Or.inr ⟨_, _, rfl⟩
    · cases h
    · cases h

/-- What is written in characters of a class without a percent sign was in the class. -/
theorem isChars_of_encode (h : encode s mask = .ok t) (hpercent : isChar percent mask = false)
    (ht : isChars t mask) : isChars s mask = true := by
  revert ht
  refine encodeChars_induct h (fun _ => rfl) fun hc ih ht => ?_
  rw [isChars, List.all_append, Bool.and_eq_true] at ht
  rw [isChars, List.all_cons, Bool.and_eq_true]
  refine ⟨?_, ih ht.2⟩
  obtain ⟨hchar, -⟩ | ⟨a, b, rfl⟩ := encodeChar_cases hc
  · exact hchar
  · rw [List.all_cons, hpercent] at ht
    cases ht.1

theorem findUser_append (hU : userText user = .ok t) (hrest : atSign ∉ rest) :
    findUser url (t ++ rest) =
      if isChars user 0x05 then .ok (if user = [] then none else some user, rest)
      else .error (.parse (ascii "User info in '" ++ url ++ ascii "' is invalid")) := by
  rw [userText] at hU
  split at hU
  · next hnil =>
    have hfind := @findChar_append atSign rest [] hrest fun _ hd => by cases hd
    cases hU
    subst hnil
    rw [List.append_nil] at hfind
    rw [List.nil_append, findUser, hfind]
    rfl
  · next hne =>
    obtain ⟨e, he, rfl⟩ := map_eq_ok.1 hU
    have hfind := @findChar_append atSign e (atSign :: rest)
      (coding_user.avoids he atSign (by simp)) fun _ => eq_of_mem_head?
    rw [List.append_assoc, List.singleton_append, findUser, hfind]
    dsimp only
    rw [if_neg (List.cons_ne_nil _ _), if_neg hne]
    by_cases hchars : isChars user 0x05 = true
    · have heq : e = user := Except.ok.inj (he.symm.trans (encode_of_isChars hchars))
      subst heq
      rw [if_pos hchars, if_pos hchars]
      rfl
    · rw [if_neg hchars, if_neg fun h => hchars (isChars_of_encode he (by decide) h)]

/-! ## Host -/

/-- The host is recognized as an address of its version, or as a name. -/
def Recognized (ipV : Int8) (host : List UInt8) : Prop :=
  if ipV = 0 then isIpv4 host = false ∧ isRegName host = true ∧ toLower host = host
  else if ipV = 4 then isIpv4 host = true
  else if ipV = 6 then isIpv6 host = true ∧ normalizeIPv6 host = .ok host
  else 0 ≤ ipV ∧ ipV ≤ 15

theorem findHost_named (hhost : isChars host 0x05) (hne : host ≠ []) :
    findHost url (host ++ rest) = namedHost url (host ++ rest) := by
  cases host with
  | nil => exact absurd rfl hne
  | cons c host =>
    have hc := ne_of_isChar c (isChars_iff.1 hhost c List.mem_cons_self)
    rw [List.cons_append, findHost, if_neg]
    rintro rfl
    exact hc (by simp)

theorem namedHost_append (hcolon : colon ∉ host) (hrest : ∀ d ∈ rest.head?, d = colon) :
    namedHost url (host ++ rest) =
      if isIpv4 host then .ok (4, host, rest)
      else if isRegName host then .ok (0, host, rest)
      else .error (hostInvalid url) := by
  rw [namedHost, findChar_append hcolon hrest]

theorem namedHost_cases (h : namedHost url b = .ok (ipV, host, rest)) :
    ipV = 4 ∧ isIpv4 host = true ∨ ipV = 0 ∧ isIpv4 host = false ∧ isRegName host = true := by
  rw [namedHost] at h
  dsimp only at h
  split at h
  · next hipv4 =>
    cases h
    exact Or.inl ⟨rfl, hipv4⟩
  · next hipv4 =>
    split at h
    · next hname =>
      cases h
      exact Or.inr ⟨rfl, Bool.eq_false_iff.2 hipv4, hname⟩
    · cases h

theorem literalHost_append (h : closeBracket ∉ s) :
    literalHost url (s ++ closeBracket :: rest) = bracketedHost url rest s := by
  have hfind := @findChar_append closeBracket s (closeBracket :: rest) h fun _ => eq_of_mem_head?
  rw [literalHost, hfind]
  rfl

theorem bracketedHost_ipv6 (h : ∀ c ∈ host, IPv6.isPart c = true) :
    bracketedHost url rest host =
      if isIpv6 host then .ok (6, host, rest) else .error (hostInvalid url) := by
  rw [bracketedHost]
  rintro s rfl
  exact absurd (h 118 List.mem_cons_self) (by decide)

/-- The version is written as one hexadecimal digit, or with a second one. -/
def isVersion (ipV : Int8) : Bool :=
  match versionText ipV with
  | [c] => isHexdigit c && futureVersion c dot == ipV && 0 ≤ ipV && ipV ≤ 15
  | _ :: d :: _ => isHexdigit d && !(0 ≤ ipV && ipV ≤ 15)
  | [] => false

theorem isVersion_all (ipV : Int8) : isVersion ipV = true := by
  have h := forall_byte (P := fun c => isVersion c.toInt8 = true) (by decide +kernel) ipV.toUInt8
  rwa [Int8.toInt8_toUInt8] at h

theorem isHex_versionText : ∀ c ∈ versionText ipV, IPv6.isHex c = true :=
  fun c hc => IPv6.isHex_writeHex (n := ipV.toInt32.toUInt32.toNat) c hc

/-- What is found behind `[v`. -/
theorem futureHost_append (hhost : isChars host 0x05) :
    futureHost (versionText ipV ++ dot :: host) =
      if 0 ≤ ipV ∧ ipV ≤ 15 then some (ipV, host) else none := by
  have h := isVersion_all ipV
  rw [isVersion] at h
  split at h
  · next c hc =>
    simp only [Bool.and_eq_true, beq_iff_eq, decide_eq_true_eq] at h
    obtain ⟨⟨⟨hhex, hval⟩, hpos⟩, hle⟩ := h
    have hne : ipV ≠ -1 := by
      rintro rfl
      exact absurd hpos (by decide)
    rw [hc, List.singleton_append, futureHost, hval, if_pos ⟨hhex, hne, rfl, hhost⟩,
      if_pos ⟨hpos, hle⟩]
  · next c d more hc =>
    simp only [Bool.and_eq_true, Bool.not_eq_true', Bool.and_eq_false_iff,
      decide_eq_false_iff_not] at h
    have hdot : ¬ d = dot := by
      rintro rfl
      exact absurd h.1 (by decide)
    rw [hc, List.cons_append, List.cons_append, futureHost, if_neg fun hd => hdot hd.2.2.1,
      if_neg fun hrange => h.2.elim (fun hno => hno hrange.1) fun hno => hno hrange.2]
  · cases h

/-- The host is found behind the brackets and the version. -/
theorem findHost_future (hzero : ipV ≠ 0) (hfour : ipV ≠ 4) (hsix : ipV ≠ 6)
    (hhost : isChars host 0x05) :
    findHost url (hostText ipV host ++ rest) =
      if 0 ≤ ipV ∧ ipV ≤ 15 then .ok (ipV, host, rest) else .error (hostInvalid url) := by
  have hbracket : closeBracket ∉ 118 :: (versionText ipV ++ dot :: host) := by
    rw [List.mem_cons, List.mem_append, List.mem_cons, not_or, not_or, not_or]
    refine ⟨by decide, fun hmem => absurd (isHex_versionText _ hmem) (by decide), by decide, ?_⟩
    exact fun hmem => ne_of_isChar _ (isChars_iff.1 hhost _ hmem) (by simp)
  have htext : hostText ipV host ++ rest =
      openBracket :: (118 :: (versionText ipV ++ dot :: host) ++ closeBracket :: rest) := by
    rw [hostText, if_neg (not_or.2 ⟨hzero, hfour⟩), if_neg hsix]
    simp
  rw [htext, findHost, if_pos rfl, literalHost_append hbracket, bracketedHost,
    futureHost_append hhost]
  by_cases hrange : 0 ≤ ipV ∧ ipV ≤ 15
  · rw [if_pos hrange, if_pos hrange]
  · rw [if_neg hrange, if_neg hrange]

theorem findHost_ipv6 (hpart : ∀ c ∈ host, IPv6.isPart c = true) :
    findHost url (hostText 6 host ++ rest) =
      if isIpv6 host then .ok (6, host, rest) else .error (hostInvalid url) := by
  have hbracket : closeBracket ∉ host := fun hmem => absurd (hpart _ hmem) (by decide)
  have htext : hostText 6 host ++ rest = openBracket :: (host ++ closeBracket :: rest) := by
    rw [hostText, if_neg (by decide), if_pos rfl]
    simp
  rw [htext, findHost, if_pos rfl, literalHost_append hbracket, bracketedHost_ipv6 hpart]

/-- **A recognized host is found again.** -/
theorem findHost_of_recognized (hhost : isChars host 0x05)
    (hpart : ipV = 6 → ∀ c ∈ host, IPv6.isPart c = true) (hne : host ≠ [])
    (hrest : ∀ d ∈ rest.head?, d = colon) (h : Recognized ipV host) :
    findHost url (hostText ipV host ++ rest) = .ok (ipV, host, rest) ∧
      decodeHost ipV (some host) = .ok host := by
  have hname : ∀ {c : UInt8}, isRegName host → c ∈ host → c ≠ colon :=
    fun hreg hc => (isChar_of_isRegName _ (isChars_iff.1 hreg _ hc)).2
  rw [decodeHost_of_isChars hhost]
  rw [Recognized] at h
  by_cases hzero : ipV = 0
  · rw [if_pos hzero] at h
    subst hzero
    rw [hostText, if_pos (Or.inl rfl), findHost_named hhost hne,
      namedHost_append (fun hmem => hname h.2.1 hmem rfl) hrest, h.1, if_neg Bool.false_ne_true,
      if_pos h.2.1, if_pos rfl, normalizeRegName, h.2.2]
    exact ⟨rfl, rfl⟩
  rw [if_neg hzero] at h ⊢
  by_cases hfour : ipV = 4
  · rw [if_pos hfour] at h
    subst hfour
    rw [hostText, if_pos (Or.inr rfl), findHost_named hhost hne,
      namedHost_append (fun hmem => hname (isRegName_of_isIpv4 h) hmem rfl) hrest, if_pos h,
      if_neg (by decide)]
    exact ⟨rfl, rfl⟩
  rw [if_neg hfour] at h
  by_cases hsix : ipV = 6
  · rw [if_pos hsix] at h
    subst hsix
    rw [findHost_ipv6 (hpart rfl), if_pos h.1, if_pos rfl]
    exact ⟨rfl, h.2⟩
  · rw [if_neg hsix] at h
    rw [findHost_future hzero hfour hsix hhost, if_pos h, if_neg hsix]
    exact ⟨rfl, rfl⟩

/-- **A host that is found again was recognized.** -/
theorem recognized_of_findHost (hhost : isChars host 0x05)
    (hpart : ipV = 6 → ∀ c ∈ host, IPv6.isPart c = true) (hne : host ≠ [])
    (h : findHost url (hostText ipV host ++ rest) = .ok (ipV, s, t))
    (hdecode : decodeHost ipV (some s) = .ok host) : Recognized ipV host := by
  rw [decodeHost_of_isChars (isChars_findHost h)] at hdecode
  rw [Recognized]
  by_cases hzero : ipV = 0
  · rw [if_pos hzero] at hdecode ⊢
    subst hzero
    cases hdecode
    rw [hostText, if_pos (Or.inl rfl), findHost_named hhost hne] at h
    obtain ⟨hfour, -⟩ | ⟨-, hipv4, hname⟩ := namedHost_cases h
    · cases hfour
    · rw [normalizeRegName, isIpv4_toLower, isRegName_toLower, toLower_toLower]
      exact ⟨hipv4, hname, rfl⟩
  rw [if_neg hzero] at hdecode ⊢
  by_cases hfour : ipV = 4
  · rw [if_pos hfour]
    subst hfour
    cases hdecode
    rw [hostText, if_pos (Or.inr rfl), findHost_named hhost hne] at h
    obtain ⟨-, hipv4⟩ | ⟨hno, -⟩ := namedHost_cases h
    · exact hipv4
    · cases hno
  rw [if_neg hfour]
  by_cases hsix : ipV = 6
  · rw [if_pos hsix] at hdecode ⊢
    subst hsix
    rw [findHost_ipv6 (hpart rfl)] at h
    split at h
    · next hipv6 =>
      cases h
      exact ⟨hipv6, hdecode⟩
    · cases h
  · rw [if_neg hsix]
    rw [findHost_future hzero hfour hsix hhost] at h
    split at h
    · next hrange => exact hrange
    · cases h

/-! ## Port -/

theorem head?_portText : ∀ d ∈ (portText s port).head?, d = colon := by
  rw [portText]
  split
  · exact fun d hd => by cases hd
  · exact fun _ => eq_of_mem_head?

theorem findPort_portText (h : port = [] ∨ isPort port = true) :
    findPort url (portText s port) =
      .ok (if port = [] ∨ isDefaultPort s port then none else some port) := by
  rw [portText]
  by_cases hleft : port = [] ∨ isDefaultPort s port = true
  · rw [if_pos hleft, if_pos hleft]
    rfl
  · rw [if_neg hleft, if_neg hleft, findPort, if_pos rfl,
      if_pos (h.resolve_left fun hnil => hleft (Or.inl hnil))]

/-- The port is found again unless it is left out. -/
theorem getD_port_iff : (if port = [] ∨ isDefaultPort s port then none else some port).getD [] =
    port ↔ port = [] ∨ isDefaultPort s port = false := by
  split
  · next hleft =>
    rw [Option.getD_none]
    constructor
    · exact fun hnil => Or.inl hnil.symm
    · rintro (hnil | hdefault)
      · exact hnil.symm
      · exact (hleft.resolve_right (by rw [hdefault]; exact Bool.false_ne_true)).symm
  · next hleft =>
    rw [not_or, Bool.not_eq_true] at hleft
    exact iff_of_true rfl (Or.inr hleft.2)

/-! ## Characters of an authority -/

/-- What ends an authority, or a user info in it. -/
def authorityEnds : List UInt8 := [slash, questionMark, numberSign, atSign]

theorem not_mem_authorityEnds_of_isChar (c : UInt8) (h : isChar c 0x05 = true) :
    c ∉ authorityEnds := by
  have hsub : authorityEnds ⊆
      [percent, slash, questionMark, numberSign, atSign, openBracket, closeBracket] := by decide
  exact fun hmem => ne_of_isChar c h (hsub hmem)

theorem isChar_of_isHex : ∀ c, IPv6.isHex c = true → isChar c 0x05 = true :=
  forall_byte (by decide +kernel)

theorem not_mem_authorityEnds_hostText (hhost : isChars host 0x05) :
    ∀ c ∈ hostText ipV host, c ∉ authorityEnds := by
  have hall : ∀ c ∈ host, c ∉ authorityEnds :=
    fun c hc => not_mem_authorityEnds_of_isChar c (isChars_iff.1 hhost c hc)
  have hclose : ∀ c ∈ host ++ [closeBracket], c ∉ authorityEnds := by
    intro c hc
    rcases List.mem_append.1 hc with hc | hc
    · exact hall c hc
    · rw [List.mem_singleton.1 hc]
      decide
  rw [hostText]
  split
  · exact hall
  · split
    · exact List.forall_mem_cons.2 ⟨by decide, hclose⟩
    · refine List.forall_mem_cons.2 ⟨by decide, List.forall_mem_cons.2 ⟨by decide, ?_⟩⟩
      intro c hc
      rcases List.mem_append.1 hc with hc | hc
      · exact not_mem_authorityEnds_of_isChar c (isChar_of_isHex c (isHex_versionText c hc))
      · exact (List.forall_mem_cons.2 ⟨by decide, hclose⟩ : ∀ c ∈ dot :: _, _) c hc

theorem not_mem_authorityEnds_portText (h : port = [] ∨ isPort port = true) :
    ∀ c ∈ portText s port, c ∉ authorityEnds := by
  rw [portText]
  split
  · exact fun _ hc => absurd hc List.not_mem_nil
  · next hleft =>
    have hport := h.resolve_left fun hnil => hleft (Or.inl hnil)
    refine List.forall_mem_cons.2 ⟨by decide, fun c hc => not_mem_authorityEnds_of_isChar c ?_⟩
    exact isChar_of_isHex c (IPv6.isHex_of_isDigit ((isPort_iff.1 hport).1.isDigit c hc))

theorem not_mem_authorityEnds_rest (h : Kept u) :
    ∀ c ∈ hostText u.ipV u.host ++ portText u.scheme u.port, c ∉ authorityEnds :=
  fun c hc => (List.mem_append.1 hc).elim (not_mem_authorityEnds_hostText h.host c)
    (not_mem_authorityEnds_portText h.port c)

/-- What is written for an authority has none of the characters that end one. -/
theorem not_ends_authority (h : Kept u) (hU : userText u.user = .ok t) :
    ∀ c ∈ t ++ (hostText u.ipV u.host ++ portText u.scheme u.port),
      c ∉ [slash, questionMark, numberSign] := by
  have hsub : ∀ {c : UInt8}, c ∈ [slash, questionMark, numberSign] → c ∈ authorityEnds :=
    fun hc => List.mem_append_left [atSign] hc
  intro c hc
  rcases List.mem_append.1 hc with hc | hc
  · rw [userText] at hU
    split at hU
    · cases hU
      exact absurd hc List.not_mem_nil
    · obtain ⟨e, he, rfl⟩ := map_eq_ok.1 hU
      intro hend
      rcases List.mem_append.1 hc with hc | hc
      · exact coding_user.avoids he c (List.mem_cons_of_mem atSign hend) hc
      · rw [List.mem_singleton.1 hc] at hend
        exact absurd hend (by decide)
  · exact fun hend => not_mem_authorityEnds_rest h c hc (hsub hend)

/-! ## The authority as a whole -/

/-- The user info, the host and the port of a url are what is decoded from the ranges. -/
structure Restores (r : UrlRanges) (u : UrlParts) : Prop where
  user : decodeRange r.user = .ok u.user
  host : decodeHost r.ipV r.host = .ok u.host
  ipV : r.ipV = u.ipV
  port : r.port.getD [] = u.port

/-- The authority can be told from what is written for it. -/
structure PlainAuthority (u : UrlParts) : Prop where
  user : isChars u.user 0x05 = true
  host : Recognized u.ipV u.host
  port : u.port = [] ∨ isDefaultPort u.scheme u.port = false

theorem splitAuthority_text (h : Kept u) (hU : userText u.user = .ok t) :
    splitAuthority url (t ++ (hostText u.ipV u.host ++ portText u.scheme u.port)) =
      if isChars u.user 0x05 then
        findHost url (hostText u.ipV u.host ++ portText u.scheme u.port) >>= fun p =>
          (findPort url p.2.2).map fun port =>
            { user := if u.user = [] then none else some u.user
              host := some p.2.1
              ipV := p.1
              port := port }
      else .error (.parse (ascii "User info in '" ++ url ++ ascii "' is invalid")) := by
  have hat : atSign ∉ hostText u.ipV u.host ++ portText u.scheme u.port :=
    fun hmem => not_mem_authorityEnds_rest h _ hmem (by simp [authorityEnds])
  rw [splitAuthority, findUser_append hU hat]
  split
  · simp only [bind, Except.bind]
    cases findHost url (hostText u.ipV u.host ++ portText u.scheme u.port) with
    | error e => rfl
    | ok p =>
      dsimp only
      cases findPort url p.2.2 <;> rfl
  · rfl

/-- **The round trip of an authority.** -/
theorem restores_iff (h : Kept u) (hne : u.host ≠ []) (hU : userText u.user = .ok t) :
    (∃ r, splitAuthority url (t ++ (hostText u.ipV u.host ++ portText u.scheme u.port)) = .ok r ∧
      Restores r u) ↔ PlainAuthority u := by
  have hagain : Recognized u.ipV u.host →
      findHost url (hostText u.ipV u.host ++ portText u.scheme u.port) =
        .ok (u.ipV, u.host, portText u.scheme u.port) ∧
      decodeHost u.ipV (some u.host) = .ok u.host :=
    findHost_of_recognized h.host h.address hne head?_portText
  rw [splitAuthority_text h hU]
  constructor
  · rintro ⟨r, hr, hrestores⟩
    split at hr
    · next huser =>
      obtain ⟨⟨ipV, s, b⟩, hfind, hr⟩ := bind_eq_ok.1 hr
      obtain ⟨port, hfound, rfl⟩ := map_eq_ok.1 hr
      have hipV : ipV = u.ipV := hrestores.ipV
      subst hipV
      have hhost := recognized_of_findHost h.host h.address hne hfind hrestores.host
      rw [(hagain hhost).1] at hfind
      cases hfind
      have hport := hrestores.port
      rw [findPort_portText h.port] at hfound
      rw [← Except.ok.inj hfound] at hport
      exact ⟨huser, hhost, getD_port_iff.1 hport⟩
    · cases hr
  · intro hplain
    obtain ⟨hfind, hdecode⟩ := hagain hplain.host
    have huser : decodeRange (if u.user = [] then none else some u.user) = .ok u.user := by
      split
      · next hnil =>
        rw [hnil]
        rfl
      · exact decode_of_isChars hplain.user
    rw [if_pos hplain.user, hfind]
    exact ⟨_, map_eq_ok.2 ⟨_, findPort_portText h.port, rfl⟩, huser, hdecode, rfl,
      getD_port_iff.2 hplain.port⟩

end SNet.Http.Url
