import SNet.Http.UrlAuthority
import SNet.Http.UrlQueries

/-!
# The round trip of a url

`Writable` is when `build_url` returns a text, and `Faithful` when the parts are parsed from that
text again (`parses_back_iff`). The text is split where its parts were put together, whatever they
are, but for the authority, which may be read as another one.
-/

namespace SNet.Http.Url

variable {url s t rest A P Q F : List UInt8} {u : UrlParts} {r ranges : UrlRanges}

/-! ## Building -/

/-- The parts that a text is built of. -/
structure Writable (u : UrlParts) : Prop where
  user : u.host ≠ [] → ∀ c ∈ u.user, c < 128
  bare : u.host = [] →
    u.user = [] ∧ u.port = [] ∧ (findFirstOf u.path [colon, slash]).2.head? ≠ some colon
  absolute : u.host ≠ [] → u.path = [] ∨ u.path.head? = some slash
  path : ∀ c ∈ u.path, c < 128
  query : ∀ e ∈ u.query, WrittenEntry e
  fragment : ∀ c ∈ u.fragment, c < 128

theorem buildText_cases (h : buildText u = .ok t) : ∃ A P Q F, authorityText u = .ok A ∧
    pathText u = .ok P ∧ queryText u.query = .ok Q ∧ fragmentText u.fragment = .ok F ∧
      t = schemeText u.scheme ++ (A ++ (P ++ (Q ++ F))) := by
  obtain ⟨A, hA, h⟩ := bind_eq_ok.1 h
  obtain ⟨P, hP, h⟩ := bind_eq_ok.1 h
  obtain ⟨Q, hQ, h⟩ := bind_eq_ok.1 h
  obtain ⟨F, hF, h⟩ := bind_eq_ok.1 h
  cases h
  exact ⟨A, P, Q, F, hA, hP, hQ, hF, rfl⟩

/-- What is written for a range unless it is empty. -/
theorem optional_iff {plain : UInt8 → UInt8} {special : UInt8 → Option (List UInt8)} {mask : UInt8}
    {avoid : List UInt8} (h : Coding plain special mask avoid) {f : List UInt8 → List UInt8} :
    (∃ t, (if s = [] then .ok [] else (encodeChars special mask s).map f) = Except.ok t) ↔
      ∀ c ∈ s, c < 128 := by
  rw [← h.encode_iff]
  split
  · next hnil =>
    rw [hnil]
    exact iff_of_true ⟨[], rfl⟩ ⟨[], rfl⟩
  · constructor
    · rintro ⟨t, ht⟩
      obtain ⟨e, he, -⟩ := map_eq_ok.1 ht
      exact ⟨e, he⟩
    · rintro ⟨e, he⟩
      exact ⟨_, map_eq_ok.2 ⟨e, he, rfl⟩⟩

theorem userText_iff : (∃ t, userText s = .ok t) ↔ ∀ c ∈ s, c < 128 := optional_iff coding_user

theorem fragmentText_iff : (∃ t, fragmentText s = .ok t) ↔ ∀ c ∈ s, c < 128 :=
  optional_iff coding_fragment

theorem pathText_cases (h : pathText u = .ok P) : encode u.path 0x0F = .ok P ∧
    (u.host ≠ [] → u.path = [] ∨ u.path.head? = some slash) := by
  rw [pathText] at h
  split at h
  · next hnil =>
    cases h
    rw [hnil]
    exact ⟨rfl, fun _ => Or.inl rfl⟩
  · split at h
    · cases h
    · next hrel =>
      refine ⟨h, fun hhost => Or.inr ?_⟩
      by_contra hslash
      exact hrel ⟨hslash, hhost⟩

theorem pathText_iff : (∃ P, pathText u = .ok P) ↔
    (u.host ≠ [] → u.path = [] ∨ u.path.head? = some slash) ∧ ∀ c ∈ u.path, c < 128 := by
  rw [← coding_path.encode_iff]
  constructor
  · rintro ⟨P, hP⟩
    exact ⟨(pathText_cases hP).2, P, (pathText_cases hP).1⟩
  · rintro ⟨habs, P, hP⟩
    rw [pathText]
    by_cases hnil : u.path = []
    · rw [if_pos hnil]
      exact ⟨[], rfl⟩
    · rw [if_neg hnil, if_neg]
      · exact ⟨P, hP⟩
      · rintro ⟨hslash, hhost⟩
        exact hslash ((habs hhost).resolve_left hnil)

theorem authorityText_host (h : u.host ≠ []) : authorityText u = (userText u.user).map fun user =>
    slash :: slash :: (user ++ (hostText u.ipV u.host ++ portText u.scheme u.port)) := by
  rw [authorityText, if_pos h]

theorem authorityText_bare (h : u.host = []) : authorityText u = .ok A ↔ A = [] ∧
    u.user = [] ∧ u.port = [] ∧ (findFirstOf u.path [colon, slash]).2.head? ≠ some colon := by
  rw [authorityText, if_neg (not_not.2 h)]
  split
  · next huser => exact iff_of_false (fun hok => by cases hok) fun hok => huser hok.2.1
  · next huser =>
    split
    · next hport => exact iff_of_false (fun hok => by cases hok) fun hok => hport hok.2.2.1
    · next hport =>
      split
      · next hcolon => exact iff_of_false (fun hok => by cases hok) fun hok => hok.2.2.2 hcolon
      · next hcolon =>
        constructor
        · intro hok
          cases hok
          exact ⟨rfl, not_not.1 huser, not_not.1 hport, hcolon⟩
        · rintro ⟨rfl, -⟩
          rfl

/-- **When `build_url` returns a text.** -/
theorem buildText_iff : (∃ t, buildText u = .ok t) ↔ Writable u := by
  constructor
  · rintro ⟨t, ht⟩
    obtain ⟨A, P, Q, F, hA, hP, hQ, hF, -⟩ := buildText_cases ht
    obtain ⟨habs, hpath⟩ := pathText_iff.1 ⟨P, hP⟩
    refine ⟨fun hhost => ?_, fun hhost => ((authorityText_bare hhost).1 hA).2, habs, hpath,
      queryText_iff.1 ⟨Q, hQ⟩, fragmentText_iff.1 ⟨F, hF⟩⟩
    rw [authorityText_host hhost] at hA
    obtain ⟨e, he, -⟩ := map_eq_ok.1 hA
    exact userText_iff.1 ⟨e, he⟩
  · intro h
    obtain ⟨A, hA⟩ : ∃ A, authorityText u = .ok A := by
      by_cases hhost : u.host = []
      · exact ⟨[], (authorityText_bare hhost).2 ⟨rfl, h.bare hhost⟩⟩
      · obtain ⟨e, he⟩ := userText_iff.2 (h.user hhost)
        rw [authorityText_host hhost]
        exact ⟨_, map_eq_ok.2 ⟨e, he, rfl⟩⟩
    obtain ⟨P, hP⟩ := pathText_iff.2 ⟨h.absolute, h.path⟩
    obtain ⟨Q, hQ⟩ := queryText_iff.2 h.query
    obtain ⟨F, hF⟩ := fragmentText_iff.2 h.fragment
    exact ⟨_, bind_eq_ok.2 ⟨A, hA, bind_eq_ok.2 ⟨P, hP, bind_eq_ok.2 ⟨Q, hQ,
      bind_eq_ok.2 ⟨F, hF, rfl⟩⟩⟩⟩⟩

/-! ## Splitting -/

theorem fragmentText_cases (h : fragmentText s = .ok F) :
    s = [] ∧ F = [] ∨ ∃ f, F = numberSign :: f ∧ isChars f 0x3F = true ∧ decode f = .ok s := by
  rw [fragmentText] at h
  split at h
  · next hnil =>
    cases h
    exact Or.inl ⟨hnil, rfl⟩
  · obtain ⟨f, hf, rfl⟩ := map_eq_ok.1 h
    exact Or.inr ⟨f, rfl, coding_fragment.isChars hf, coding_fragment.decode hf⟩

theorem head?_fragment (hF : fragmentText s = .ok F) : ∀ c ∈ F.head?, c = numberSign := by
  obtain ⟨-, rfl⟩ | ⟨f, rfl, -, -⟩ := fragmentText_cases hF
  · exact fun c hc => by cases hc
  · exact fun _ => eq_of_mem_head?

/-- What follows the path begins with a question mark or a number sign. -/
theorem head?_query (hQ : queryText u.query = .ok Q) (hF : fragmentText s = .ok F) :
    ∀ c ∈ (Q ++ F).head?, c ∈ [questionMark, numberSign] := by
  obtain ⟨-, rfl⟩ | ⟨q, rfl, -, -, -⟩ := queryText_cases hQ
  · intro c hc
    rw [head?_fragment hF c hc]
    simp
  · intro c hc
    rw [List.cons_append] at hc
    rw [eq_of_mem_head? hc]
    simp

/-- The path, the query and the fragment are found where they were written. -/
theorem splitPath_text (hP : pathText u = .ok P) (hQ : queryText u.query = .ok Q)
    (hF : fragmentText u.fragment = .ok F) : splitPath url (P ++ (Q ++ F)) ranges =
      .ok { ranges with path := some P, query := Q.tail?, fragment := F.tail? } := by
  have hpath := (pathText_cases hP).1
  have hfind := @findFirstOf_append P (Q ++ F) [questionMark, numberSign]
    (fun c hc hmem => coding_path.avoids hpath c hmem hc) (head?_query hQ hF)
  have hchars : isChars P 0x2F = true := coding_path.isChars hpath
  have hfragment := fragmentText_cases hF
  rw [splitPath, hfind]
  dsimp only
  rw [hchars, Bool.not_true, if_neg Bool.false_ne_true]
  obtain ⟨-, rfl⟩ | ⟨q, rfl, -, hsign, -⟩ := queryText_cases hQ
  · obtain ⟨-, rfl⟩ | ⟨f, rfl, hf, -⟩ := hfragment
    · rfl
    · rw [List.nil_append, List.head?_cons]
      have hno : ¬ (some numberSign = some questionMark) := by decide
      simp only [hno, if_false, hf, if_true]
      rfl
  · have hquery := @findChar_append numberSign q F hsign (head?_fragment hF)
    rw [List.cons_append, List.head?_cons, List.tail_cons, hquery]
    simp only [if_true]
    obtain ⟨-, rfl⟩ | ⟨f, rfl, hf, -⟩ := hfragment
    · rfl
    · simp only [hf, if_true]
      rfl

/-- What ends a scheme, or says that there is none. -/
def schemeEnds : List UInt8 := [colon, slash, questionMark, numberSign]

/-- A url without any of them is a path, which splitting it finds as well. -/
theorem splitUrl_eq : splitUrl url = splitScheme url >>= fun p => splitHost url p.2 >>= fun q =>
    splitPath url q.2 { q.1 with scheme := p.1 } := by
  rw [splitUrl]
  split
  · next hend =>
    have hall : ∀ c ∈ url, c ∉ schemeEnds := by
      intro c hc
      have htake : url.takeWhile (!schemeEnds.contains ·) = url := by
        have happend := List.takeWhile_append_dropWhile (p := (!schemeEnds.contains ·)) (l := url)
        rwa [show url.dropWhile (!schemeEnds.contains ·) = [] from hend, List.append_nil] at happend
      have hno := List.takeWhile_eq_self_iff.1 htake c hc
      simpa using hno
    have hscheme : splitScheme url = .ok (none, url) := by
      rw [splitScheme]
      dsimp only
      rw [hend, if_neg (by simp)]
    have hhost : splitHost url url = .ok ({}, url) := by
      rw [splitHost, if_neg]
      rintro ⟨-, htwo⟩
      have hmem : slash ∈ url.take 2 := by
        rw [htwo]
        exact List.mem_cons_self
      exact hall slash (List.mem_of_mem_take hmem) (by decide)
    have hfind := @findFirstOf_append url [] [questionMark, numberSign]
      (fun c hc hmem => hall c hc (List.mem_cons_of_mem _ (List.mem_cons_of_mem _ hmem)))
      fun c hc => by cases hc
    rw [List.append_nil] at hfind
    simp only [bind, Except.bind, hscheme, hhost]
    rw [splitPath, hfind]
    dsimp only
    cases isChars url 0x2F <;> rfl
  · rfl

theorem splitScheme_text (hscheme : s = [] ∨ isScheme s = true)
    (hrest : s = [] → (findFirstOf rest schemeEnds).2.head? ≠ some colon) :
    splitScheme (schemeText s ++ rest) = .ok (if s = [] then none else some s, rest) := by
  rw [schemeText]
  by_cases hnil : s = []
  · rw [if_pos hnil, if_pos hnil, List.nil_append, splitScheme]
    exact if_neg (hrest hnil)
  · have hvalid := hscheme.resolve_left hnil
    have hchars : ∀ c ∈ s, c ∉ schemeEnds := by
      have hall : ∀ c, isSchemeChar c = true → c ∉ schemeEnds := forall_byte (by decide +kernel)
      exact fun c hc => hall c (isSchemeChar_of_isScheme hvalid c hc)
    have hfind := @findFirstOf_append s (colon :: rest) schemeEnds hchars fun c hc => by
      rw [eq_of_mem_head? hc]
      decide
    rw [if_neg hnil, if_neg hnil, List.append_assoc, List.singleton_append, splitScheme]
    rw [schemeEnds] at hfind
    rw [hfind]
    dsimp only
    rw [List.head?_cons, if_pos rfl, if_pos hvalid]
    rfl

/-- A character of a path is written as it is, or it is no colon and no slash and neither is what is
written for it. -/
def keepsEnds (c : UInt8) : Bool :=
  match encodeChar (fun _ => none) 0x0F c with
  | .ok text => text == [c] || text.all (!schemeEnds.contains ·) && c != colon && c != slash
  | .error _ => false

theorem encodeChar_path {c : UInt8} (h : encodeChar (fun _ => none) 0x0F c = .ok t) :
    t = [c] ∨ (∀ d ∈ t, d ∉ schemeEnds) ∧ c ∉ [colon, slash] := by
  have hall : ∀ n < 128, keepsEnds (UInt8.ofNat n) = true := by decide +kernel
  have hc := hall c.toNat (UInt8.lt_iff_toNat_lt.1 (coding_path.lt_iff.1 ⟨t, h⟩))
  rw [UInt8.ofNat_toNat, keepsEnds, h] at hc
  simp only [Bool.or_eq_true, Bool.and_eq_true, beq_iff_eq, bne_iff_ne, List.all_eq_true,
    Bool.not_eq_true', List.contains_eq_mem, decide_eq_false_iff_not] at hc
  refine hc.imp_right fun hends => ⟨hends.1.1, ?_⟩
  rw [List.mem_cons, List.mem_singleton, not_or]
  exact ⟨hends.1.2, hends.2⟩

/-- A slash that is written was a slash of the path. -/
theorem slash_of_encode (hP : encode s 0x0F = .ok P) (hrest : ∀ c ∈ rest.head?, c ≠ slash)
    (h : (P ++ rest).head? = some slash) :
    ∃ s' P', s = slash :: s' ∧ P = slash :: P' ∧ encode s' 0x0F = .ok P' := by
  cases s with
  | nil =>
    cases hP
    exact absurd rfl (hrest slash h)
  | cons c s =>
    obtain ⟨text, P', hc, hs, rfl⟩ := encodeChars_cons hP
    obtain rfl | ⟨hends, -⟩ := encodeChar_path hc
    · cases h
      exact ⟨s, P', rfl, rfl, hs⟩
    · obtain ⟨d, -, rfl⟩ | ⟨a, b, rfl⟩ := encodeChar_cases hc
      · cases h
        exact absurd (by decide) (hends slash List.mem_cons_self)
      · cases h

/-- Without a host nothing is taken for an authority. -/
theorem splitHost_bare (hnormal : normalizePath s = s) (hP : encode s 0x0F = .ok P)
    (hrest : ∀ c ∈ rest.head?, c ≠ slash) : splitHost url (P ++ rest) = .ok ({}, P ++ rest) := by
  rw [splitHost, if_neg]
  rintro ⟨-, htwo⟩
  have hhead : (P ++ rest).head? = some slash := by
    have htake := List.head?_take (l := P ++ rest) (i := 2)
    rw [htwo, if_neg (by decide)] at htake
    exact htake.symm
  obtain ⟨s, P, rfl, rfl, hs⟩ := slash_of_encode hP hrest hhead
  have hnext : (P ++ rest).head? = some slash := by
    have htake := List.head?_take (l := P ++ rest) (i := 1)
    rw [List.cons_append, List.take_succ_cons, List.cons.injEq] at htwo
    rw [htwo.2, if_neg (by decide)] at htake
    exact htake.symm
  obtain ⟨s, P, rfl, rfl, -⟩ := slash_of_encode hs hrest hnext
  exact take_two_ne hnormal rfl

/-- If a colon is first in what is written, it is first in the path. -/
theorem colon_of_encode (hP : encode s 0x0F = .ok P)
    (hrest : ∀ c ∈ rest.head?, c ∈ [questionMark, numberSign])
    (h : (findFirstOf (P ++ rest) schemeEnds).2.head? = some colon) :
    (findFirstOf s [colon, slash]).2.head? = some colon := by
  revert h
  refine encodeChars_induct hP (fun h => ?_) fun {c text s t} hc ih h => ?_
  · have hfind := @findFirstOf_append [] rest schemeEnds (fun c hc => absurd hc List.not_mem_nil)
      fun c hc => List.mem_append_right [colon, slash] (hrest c hc)
    rw [hfind] at h
    exact absurd (hrest colon h) (by decide)
  · obtain rfl | ⟨hends, hc⟩ := encodeChar_path hc
    · by_cases hend : c ∈ schemeEnds
      · rw [findFirstOf, List.append_assoc, List.singleton_append,
          List.dropWhile_cons_of_neg (by simpa using hend)] at h
        cases h
        rfl
      · rw [List.append_assoc, findFirstOf_skip fun d hd => List.mem_singleton.1 hd ▸ hend] at h
        have hskip := @findFirstOf_skip [c] s [colon, slash] fun d hd hmem =>
          hend (List.mem_append_left [questionMark, numberSign] (List.mem_singleton.1 hd ▸ hmem))
        rw [← List.singleton_append, hskip]
        exact ih h
    · have hskip := @findFirstOf_skip [c] s [colon, slash] fun d hd => List.mem_singleton.1 hd ▸ hc
      rw [List.append_assoc, findFirstOf_skip hends] at h
      rw [← List.singleton_append, hskip]
      exact ih h

/-- In what follows a scheme, or stands there without one, a colon does not come first. -/
theorem colon_not_first (hA : authorityText u = .ok A) (hP : encode u.path 0x0F = .ok P)
    (hrest : ∀ c ∈ rest.head?, c ∈ [questionMark, numberSign]) :
    (findFirstOf (A ++ (P ++ rest)) schemeEnds).2.head? ≠ some colon := by
  by_cases hbare : u.host = []
  · obtain ⟨rfl, -, -, hcolon⟩ := (authorityText_bare hbare).1 hA
    exact fun h => hcolon (colon_of_encode hP hrest h)
  · rw [authorityText_host hbare] at hA
    obtain ⟨user, -, rfl⟩ := map_eq_ok.1 hA
    have hslash : ∀ {s : List UInt8}, (findFirstOf (slash :: s) schemeEnds).2.head? = some slash :=
      rfl
    rw [List.cons_append, hslash]
    decide

/-- What follows an authority ends it. -/
theorem head?_path (hP : encode s 0x0F = .ok P) (habs : s = [] ∨ s.head? = some slash)
    (hrest : ∀ c ∈ rest.head?, c ∈ [questionMark, numberSign]) :
    ∀ c ∈ (P ++ rest).head?, c ∈ [slash, questionMark, numberSign] := by
  cases s with
  | nil =>
    cases hP
    exact fun c hc => List.mem_cons_of_mem slash (hrest c hc)
  | cons d s =>
    obtain hnil | hslash := habs
    · cases hnil
    · cases hslash
      obtain ⟨text, P', hc, -, rfl⟩ := encodeChars_cons hP
      cases hc
      intro c hc
      rw [List.append_assoc, List.singleton_append] at hc
      rw [eq_of_mem_head? hc]
      exact List.mem_cons_self

/-- With a host, the authority is what was written for it. -/
theorem splitHost_authority (hs : ∀ c ∈ s, c ∉ [slash, questionMark, numberSign])
    (hrest : ∀ c ∈ rest.head?, c ∈ [slash, questionMark, numberSign]) :
    splitHost url (slash :: slash :: (s ++ rest)) = (splitAuthority url s).map (·, rest) := by
  have htwo : 1 < (slash :: slash :: (s ++ rest)).length ∧
      (slash :: slash :: (s ++ rest)).take 2 = [slash, slash] := by
    rw [List.length_cons, List.length_cons]
    exact ⟨by omega, rfl⟩
  have hfind := findFirstOf_append hs hrest
  rw [splitHost, if_pos htwo, List.drop_succ_cons, List.drop_succ_cons, List.drop_zero, hfind]

/-! ## Decoding -/

theorem decodeQuery_text (hQ : queryText u.query = .ok Q) :
    decodeQuery url Q.tail? = .ok u.query := by
  obtain ⟨hnil, rfl⟩ | ⟨q, rfl, hne, -, hparse⟩ := queryText_cases hQ
  · rw [hnil]
    rfl
  · rw [List.tail?_cons]
    cases q with
    | nil => exact absurd rfl hne
    | cons c q => exact hparse url

theorem decodeRange_fragment (hF : fragmentText s = .ok F) : decodeRange F.tail? = .ok s := by
  obtain ⟨hnil, rfl⟩ | ⟨f, rfl, -, hdecode⟩ := fragmentText_cases hF
  · rw [hnil]
    rfl
  · exact hdecode

/-- What is decoded from the ranges of what was built are the parts, but for the authority. -/
theorem decodeParts_text (h : Kept u) (hP : pathText u = .ok P) (hQ : queryText u.query = .ok Q)
    (hF : fragmentText u.fragment = .ok F) :
    decodeParts url
        { r with
          scheme := if u.scheme = [] then none else some u.scheme
          path := some P
          query := Q.tail?
          fragment := F.tail? } =
      decodeRange r.user >>= fun user => (decodeHost r.ipV r.host).map fun host =>
        { u with user := user, host := host, ipV := r.ipV, port := r.port.getD [] } := by
  have hpath : decodeRange (some P) = .ok u.path := coding_path.decode (pathText_cases hP).1
  have hscheme : normalizeScheme ((if u.scheme = [] then none else some u.scheme).getD []) =
      u.scheme := by
    rcases h.scheme with hnil | ⟨-, hlower⟩
    · rw [if_pos hnil, hnil]
      rfl
    · split
      · next hnil =>
        rw [hnil]
        rfl
      · exact hlower
  rw [decodeParts]
  simp only [bind, Except.bind, hpath, decodeQuery_text hQ, decodeRange_fragment hF, hscheme, h.path]
  cases decodeRange r.user with
  | error e => rfl
  | ok user =>
    dsimp only
    cases decodeHost r.ipV r.host <;> rfl

theorem decodeParts_iff (h : Kept u) (hP : pathText u = .ok P) (hQ : queryText u.query = .ok Q)
    (hF : fragmentText u.fragment = .ok F) :
    decodeParts url
        { r with
          scheme := if u.scheme = [] then none else some u.scheme
          path := some P
          query := Q.tail?
          fragment := F.tail? } = .ok u ↔ Restores r u := by
  rw [decodeParts_text h hP hQ hF, bind_eq_ok]
  constructor
  · rintro ⟨user, huser, hmap⟩
    obtain ⟨host, hhost, hu⟩ := map_eq_ok.1 hmap
    rw [← hu]
    exact ⟨huser, hhost, rfl, rfl⟩
  · intro hr
    refine ⟨u.user, hr.user, map_eq_ok.2 ⟨u.host, hr.host, ?_⟩⟩
    rw [hr.ipV, hr.port]

/-- Splitting what was built finds the ranges of the parts, but for the authority. -/
theorem splitUrl_text (h : Kept u) (hA : authorityText u = .ok A) (hP : pathText u = .ok P)
    (hQ : queryText u.query = .ok Q) (hF : fragmentText u.fragment = .ok F)
    (ht : t = schemeText u.scheme ++ (A ++ (P ++ (Q ++ F)))) :
    splitUrl t = (if u.host = [] then .ok {} else splitAuthority t (A.drop 2)).map fun r =>
      { r with
        scheme := if u.scheme = [] then none else some u.scheme
        path := some P
        query := Q.tail?
        fragment := F.tail? } := by
  have hpath := pathText_cases hP
  have hquery := head?_query hQ hF
  have hscheme : splitScheme t =
      .ok (if u.scheme = [] then none else some u.scheme, A ++ (P ++ (Q ++ F))) := by
    rw [ht]
    exact splitScheme_text (h.scheme.imp_right And.left) fun _ =>
      colon_not_first hA hpath.1 hquery
  have hhost : splitHost t (A ++ (P ++ (Q ++ F))) =
      (if u.host = [] then .ok {} else splitAuthority t (A.drop 2)).map (·, P ++ (Q ++ F)) := by
    by_cases hbare : u.host = []
    · obtain ⟨rfl, -⟩ := (authorityText_bare hbare).1 hA
      rw [if_pos hbare, List.nil_append]
      exact splitHost_bare h.path hpath.1 fun c hc heq => by
        have hmem := hquery c hc
        rw [heq] at hmem
        exact absurd hmem (by decide)
    · rw [authorityText_host hbare] at hA
      obtain ⟨user, huser, rfl⟩ := map_eq_ok.1 hA
      rw [if_neg hbare]
      exact splitHost_authority (not_ends_authority h huser)
        (head?_path hpath.1 (hpath.2 hbare) hquery)
  rw [splitUrl_eq, hscheme]
  simp only [bind, Except.bind]
  rw [hhost]
  cases (if u.host = [] then .ok {} else splitAuthority t (A.drop 2) : Except UrlError UrlRanges) with
  | error e => rfl
  | ok r => exact splitPath_text hP hQ hF

theorem parseParts_of_length (hlen : t.length ≤ 8000) :
    parseParts t = splitUrl t >>= decodeParts t := by
  rw [parseParts]
  by_cases hnil : t = []
  · rw [hnil]
    rfl
  · rw [if_neg hnil, if_neg (Nat.not_lt.2 hlen)]

/-- **Parsing what was built**: all comes down to the authority. -/
theorem parseParts_iff (h : Kept u) (hA : authorityText u = .ok A) (hP : pathText u = .ok P)
    (hQ : queryText u.query = .ok Q) (hF : fragmentText u.fragment = .ok F)
    (ht : t = schemeText u.scheme ++ (A ++ (P ++ (Q ++ F)))) (hlen : t.length ≤ 8000) :
    parseParts t = .ok u ↔
      ∃ r, (if u.host = [] then .ok {} else splitAuthority t (A.drop 2)) = .ok r ∧
        Restores r u := by
  rw [parseParts_of_length hlen, splitUrl_text h hA hP hQ hF ht, bind_eq_ok]
  constructor
  · rintro ⟨r, hr, hdecode⟩
    obtain ⟨r', hr', rfl⟩ := map_eq_ok.1 hr
    exact ⟨r', hr', (decodeParts_iff h hP hQ hF).1 hdecode⟩
  · rintro ⟨r, hr, hrestores⟩
    exact ⟨_, map_eq_ok.2 ⟨r, hr, rfl⟩, (decodeParts_iff h hP hQ hF).2 hrestores⟩

/-! ## Lengths -/

def authorityLength (u : UrlParts) : Nat :=
  if u.host = [] then 0
  else
    2 + (if u.user = [] then 0 else (u.user.map (cost (fun _ => none) 0x05)).sum + 1) +
      (hostText u.ipV u.host).length + (portText u.scheme u.port).length

/-- How long the text is that is built of the parts. -/
def urlLength (u : UrlParts) : Nat :=
  (schemeText u.scheme).length + authorityLength u +
    (u.path.map (cost (fun _ => none) 0x0F)).sum + (u.query.map entryLength).sum +
    if u.fragment = [] then 0 else (u.fragment.map (cost (fun _ => none) 0x1F)).sum + 1

theorem length_authorityText (h : authorityText u = .ok A) : A.length = authorityLength u := by
  rw [authorityLength]
  by_cases hbare : u.host = []
  · rw [if_pos hbare, ((authorityText_bare hbare).1 h).1]
    rfl
  · rw [authorityText_host hbare] at h
    obtain ⟨user, huser, rfl⟩ := map_eq_ok.1 h
    have hlen : user.length =
        if u.user = [] then 0 else (u.user.map (cost (fun _ => none) 0x05)).sum + 1 := by
      rw [userText] at huser
      split at huser
      · next hnil =>
        cases huser
        rw [if_pos hnil]
        rfl
      · next hne =>
        obtain ⟨e, he, rfl⟩ := map_eq_ok.1 huser
        rw [if_neg hne, List.length_append, length_encodeChars he]
        rfl
    rw [if_neg hbare, ← hlen, List.length_cons, List.length_cons, List.length_append,
      List.length_append]
    omega

theorem length_fragmentText (h : fragmentText s = .ok F) :
    F.length = if s = [] then 0 else (s.map (cost (fun _ => none) 0x1F)).sum + 1 := by
  rw [fragmentText] at h
  split at h
  · next hnil =>
    cases h
    rw [if_pos hnil]
    rfl
  · next hne =>
    obtain ⟨f, hf, rfl⟩ := map_eq_ok.1 h
    rw [if_neg hne, List.length_cons, length_encodeChars hf]

theorem length_buildText (h : buildText u = .ok t) : t.length = urlLength u := by
  obtain ⟨A, P, Q, F, hA, hP, hQ, hF, rfl⟩ := buildText_cases h
  rw [urlLength, ← length_authorityText hA, ← length_encodeChars (pathText_cases hP).1,
    ← length_queryText hQ, ← length_fragmentText hF]
  simp only [List.length_append]
  omega

theorem length_le_of_parseParts (h : parseParts t = .ok u) : t.length ≤ 8000 := by
  rw [parseParts] at h
  split at h
  · next hnil =>
    rw [hnil]
    exact Nat.zero_le _
  · split at h
    · cases h
    · next hlen => exact Nat.le_of_not_lt hlen

/-! ## The round trip -/

/-- The parts are told apart in the text that is built of them. -/
structure Faithful (u : UrlParts) : Prop where
  writable : Writable u
  version : u.host = [] → u.ipV = -1
  authority : u.host ≠ [] → PlainAuthority u
  length : urlLength u ≤ 8000

/-- The authority alone, with a host or without one. -/
theorem restores_authority_iff (h : Kept u) (hA : authorityText u = .ok A) :
    (∃ r, (if u.host = [] then .ok {} else splitAuthority url (A.drop 2)) = .ok r ∧
      Restores r u) ↔ (u.host = [] → u.ipV = -1) ∧ (u.host ≠ [] → PlainAuthority u) := by
  by_cases hbare : u.host = []
  · obtain ⟨-, huser, hport, -⟩ := (authorityText_bare hbare).1 hA
    rw [if_pos hbare]
    constructor
    · rintro ⟨r, hr, hrestores⟩
      cases hr
      exact ⟨fun _ => hrestores.ipV.symm, fun hne => absurd hbare hne⟩
    · rintro ⟨hversion, -⟩
      refine ⟨{}, rfl, ?_, ?_, (hversion hbare).symm, ?_⟩
      · rw [huser]
        rfl
      · rw [hbare]
        rfl
      · rw [hport]
        rfl
  · rw [authorityText_host hbare] at hA
    obtain ⟨user, huser, rfl⟩ := map_eq_ok.1 hA
    rw [if_neg hbare, List.drop_succ_cons, List.drop_succ_cons, List.drop_zero,
      restores_iff h hbare huser]
    constructor
    · exact fun hplain => ⟨fun hno => absurd hno hbare, fun _ => hplain⟩
    · exact fun hplain => hplain.2 hbare

/-- **The round trip of the parts.** They are parsed from what is built of them exactly when they are
faithful. -/
theorem parses_back_iff (h : Kept u) :
    (∃ t, buildText u = .ok t ∧ parseParts t = .ok u) ↔ Faithful u := by
  constructor
  · rintro ⟨t, ht, hparse⟩
    have hlen := length_le_of_parseParts hparse
    obtain ⟨A, P, Q, F, hA, hP, hQ, hF, heq⟩ := buildText_cases ht
    obtain ⟨hversion, hplain⟩ :=
      (restores_authority_iff h hA).1 ((parseParts_iff h hA hP hQ hF heq hlen).1 hparse)
    rw [length_buildText ht] at hlen
    exact ⟨buildText_iff.1 ⟨t, ht⟩, hversion, hplain, hlen⟩
  · intro hu
    obtain ⟨t, ht⟩ := buildText_iff.2 hu.writable
    have hlen := hu.length
    rw [← length_buildText ht] at hlen
    obtain ⟨A, P, Q, F, hA, hP, hQ, hF, heq⟩ := buildText_cases ht
    exact ⟨t, ht, (parseParts_iff h hA hP hQ hF heq hlen).2
      ((restores_authority_iff h hA).2 ⟨hu.version, hu.authority⟩)⟩

end SNet.Http.Url
