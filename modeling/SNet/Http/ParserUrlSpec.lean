import SNet.Http.ParserUrlReading

/-!
# The URLs that are accepted

`http_parser_parse_url` accepts the well-formed texts and no others, and what it notes shows their
parts (`parseUrl_spec`).
-/

namespace SNet.Http.Parser

variable {l : List UInt8} {s : State} {c : UInt8} {p q q' n : Nat} {t : UrlText} {u : Url}
  {r r' : UrlRun} {uf : UrlPart} {buf : List UInt8} {part : Option (List UInt8)}

/-! ## What is read is a text in its parts -/

/-- The characters that a state lets through. -/
def State.lets (s : State) (c : UInt8) : Bool :=
  match s with
  | .reqSpacesBeforeUrl => c == chr '/' || c == chr '*' || isAlpha c
  | .reqSchema => isAlpha c || c == chr ':'
  | .reqSchemaSlash | .reqSchemaSlashSlash => c == chr '/'
  | .reqServerStart | .reqServer => isServerChar c || c == chr '/' || c == chr '?'
  | .reqServerWithAt => isServerChar c && c != chr '@' || c == chr '/' || c == chr '?'
  | .reqPath => isUrlChar c || c == chr '?' || c == chr '#'
  | .reqQueryStringStart | .reqQueryString => isQueryChar c || c == chr '#'
  | .reqFragmentStart | .reqFragment => isFragmentChar c
  | _ => false

theorem parseUrlChar_eq_dead_iff : parseUrlChar s c = .dead ↔ s.lets c = false := by
  refine forall_byte (P := fun c => parseUrlChar s c = .dead ↔ s.lets c = false) ?_ c
  cases s with
  | reqSpacesBeforeUrl | reqSchema | reqSchemaSlash | reqSchemaSlashSlash | reqServerStart
  | reqServer | reqServerWithAt | reqPath | reqQueryStringStart | reqQueryString | reqFragmentStart
  | reqFragment => decide +kernel
  | _ => exact fun _ _ => iff_of_true (ite_self _) rfl

/-- The first character of a scan that does not die is let through. -/
theorem lets_of_foldl_ne (h : (c :: l).foldl parseUrlChar s ≠ .dead) : s.lets c := by
  have hne := Scan.step_ne_of_foldl_ne parseUrlChar_dead h
  rwa [Ne, parseUrlChar_eq_dead_iff, Bool.not_eq_false] at hne

/-- The loop ends in the state that the scan of the text ends in, which is not dead. -/
theorem foldl_of_urlLoop (h : urlLoop r p l = some r') (hs : r.s ≠ .dead) :
    l.foldl parseUrlChar r.s ≠ .dead := by
  induction l generalizing r p with
  | nil => exact hs
  | cons c l ih =>
    obtain ⟨r₁, h₁, h₂⟩ := Option.bind_eq_some_iff.1 h
    have hs₁ : r₁.s = parseUrlChar r.s c ∧ r₁.s ≠ .dead := by
      rw [urlStep] at h₁
      dsimp only at h₁
      by_cases hdead : parseUrlChar r.s c = .dead
      · rw [if_pos hdead] at h₁
        cases h₁
      · rw [if_neg hdead] at h₁
        cases hpart : (parseUrlChar r.s c).urlPart with
        | none =>
          rw [hpart] at h₁
          cases h₁
          exact ⟨rfl, hdead⟩
        | some uf =>
          rw [hpart] at h₁
          dsimp only at h₁
          split at h₁ <;> cases h₁ <;> exact ⟨rfl, hdead⟩
    have htail := ih h₂ hs₁.2
    rwa [hs₁.1] at htail

theorem forall_isFragmentChar (hs : s = .reqFragmentStart ∨ s = .reqFragment)
    (h : l.foldl parseUrlChar s ≠ .dead) : ∀ c ∈ l, isFragmentChar c := by
  induction l generalizing s with
  | nil => exact fun c hc => absurd hc List.not_mem_nil
  | cons c l ih =>
    have hc : isFragmentChar c := by
      have hlets := lets_of_foldl_ne h
      rcases hs with rfl | rfl
      · exact hlets
      · exact hlets
    refine List.forall_mem_cons.2 ⟨hc, ih ?_ h⟩
    rcases hs with rfl | rfl
    · rw [(parseUrlChar_fragment hc).1]
      exact ite_eq_or_eq ..
    · exact .inr (parseUrlChar_fragment hc).2

theorem forall_mem_none {α : Type} {P : α → Prop} : ∀ a ∈ (none : Option α), P a :=
  fun a h => absurd h (Option.not_mem_none a)

/-- The rest of a text from its query on. -/
theorem exists_query (hs : s = .reqQueryStringStart ∨ s = .reqQueryString)
    (h : l.foldl parseUrlChar s ≠ .dead) :
    ∃ query fragment, l = query ++ led (chr '#') fragment ∧ (∀ c ∈ query, isQueryChar c) ∧
      ∀ cs ∈ fragment, ∀ c ∈ cs, isFragmentChar c := by
  induction l generalizing s with
  | nil => exact ⟨[], none, rfl, List.forall_mem_nil _, forall_mem_none⟩
  | cons c l ih =>
    have hc : isQueryChar c ∨ c = chr '#' := by
      have hlets := lets_of_foldl_ne h
      rcases hs with rfl | rfl
      · simpa [State.lets] using hlets
      · simpa [State.lets] using hlets
    rcases hc with hc | rfl
    · have hnext : parseUrlChar s c = .reqQueryString := by
        rcases hs with rfl | rfl
        · exact (parseUrlChar_query hc).1
        · exact (parseUrlChar_query hc).2
      obtain ⟨query, fragment, rfl, hquery, hfragment⟩ := ih (.inr hnext) h
      exact ⟨c :: query, fragment, rfl, List.forall_mem_cons.2 ⟨hc, hquery⟩, hfragment⟩
    · have hnext : parseUrlChar s (chr '#') = .reqFragmentStart := by
        rcases hs with rfl | rfl
        · decide
        · decide
      refine ⟨[], some l, rfl, List.forall_mem_nil _, ?_⟩
      rintro _ ⟨⟩
      exact forall_isFragmentChar (.inl hnext) h

/-- The rest of a text from its path on. -/
theorem exists_path (h : l.foldl parseUrlChar .reqPath ≠ .dead) :
    ∃ path query fragment, l = path ++ (led (chr '?') query ++ led (chr '#') fragment) ∧
      (∀ c ∈ path, isUrlChar c) ∧ (∀ cs ∈ query, ∀ c ∈ cs, isQueryChar c) ∧
      ∀ cs ∈ fragment, ∀ c ∈ cs, isFragmentChar c := by
  have hstep : ∀ c, State.reqPath.lets c → isUrlChar c ∨ c = chr '?' ∨ c = chr '#' := by
    simp [State.lets, or_assoc]
  induction l with
  | nil => exact ⟨[], none, none, rfl, List.forall_mem_nil _, forall_mem_none, forall_mem_none⟩
  | cons c l ih =>
    rcases hstep c (lets_of_foldl_ne h) with hc | rfl | rfl
    · rw [List.foldl_cons, parseUrlChar_path hc] at h
      obtain ⟨path, query, fragment, rfl, hpath, hrest⟩ := ih h
      exact ⟨c :: path, query, fragment, rfl, List.forall_mem_cons.2 ⟨hc, hpath⟩, hrest⟩
    · obtain ⟨query, fragment, rfl, hquery, hfragment⟩ :=
        exists_query (s := parseUrlChar .reqPath (chr '?')) (.inl (by decide)) h
      refine ⟨[], some query, fragment, rfl, List.forall_mem_nil _, ?_, hfragment⟩
      rintro _ ⟨⟩
      exact hquery
    · refine ⟨[], none, some l, rfl, List.forall_mem_nil _, forall_mem_none, ?_⟩
      rintro _ ⟨⟩
      exact forall_isFragmentChar (s := parseUrlChar .reqPath (chr '#')) (.inl (by decide)) h

/-- What may follow a server. -/
theorem exists_behind (hs : s = .reqServer ∨ s = .reqServerWithAt)
    (h : l.foldl parseUrlChar s ≠ .dead) (hl : ∀ c ∈ l.head?, ¬ isServerChar c) :
    ∃ path query fragment,
      l = path.getD [] ++ (led (chr '?') query ++ led (chr '#') fragment) ∧
      (∀ cs ∈ path, ∃ cs', cs = chr '/' :: cs' ∧ ∀ c ∈ cs', isUrlChar c) ∧
      (∀ cs ∈ query, ∀ c ∈ cs, isQueryChar c) ∧
      (∀ cs ∈ fragment, ∀ c ∈ cs, isFragmentChar c) ∧
      (path = none → query = none → fragment = none) := by
  cases l with
  | nil =>
    exact ⟨none, none, none, rfl, forall_mem_none, forall_mem_none, forall_mem_none, fun _ _ => rfl⟩
  | cons c l =>
    have hc : c = chr '/' ∨ c = chr '?' := by
      have hlets := lets_of_foldl_ne h
      rcases hs with rfl | rfl
      · simpa [State.lets, hl c rfl] using hlets
      · simpa [State.lets, hl c rfl] using hlets
    rcases hc with rfl | rfl
    · have hnext : parseUrlChar s (chr '/') = .reqPath := by
        rcases hs with rfl | rfl
        · decide
        · decide
      rw [List.foldl_cons, hnext] at h
      obtain ⟨path, query, fragment, rfl, hpath, hquery, hfragment⟩ := exists_path h
      refine ⟨some (chr '/' :: path), query, fragment, rfl, ?_, hquery, hfragment,
        fun h => absurd h (Option.some_ne_none _)⟩
      rintro _ ⟨⟩
      exact ⟨path, rfl, hpath⟩
    · have hnext : parseUrlChar s (chr '?') = .reqQueryStringStart := by
        rcases hs with rfl | rfl
        · decide
        · decide
      rw [List.foldl_cons, hnext] at h
      obtain ⟨query, fragment, rfl, hquery, hfragment⟩ := exists_query (.inl rfl) h
      refine ⟨none, some query, fragment, rfl, forall_mem_none, ?_, hfragment,
        fun _ h => absurd h (Option.some_ne_none _)⟩
      rintro _ ⟨⟩
      exact hquery

/-! ## The host while the rest is read -/

/-- The states behind the server. -/
def State.later : State → Bool
  | .reqPath | .reqQueryStringStart | .reqQueryString | .reqFragmentStart | .reqFragment => true
  | _ => false

/-- What a step into a state behind the server leaves as it is. -/
theorem urlStep_later {r₁ : UrlRun}
    (hlater : parseUrlChar r.s c = .dead ∨ (parseUrlChar r.s c).later)
    (h : urlStep r p c = some r₁) :
    r₁.s = parseUrlChar r.s c ∧ r₁.s.later ∧ r₁.foundAt = r.foundAt ∧
      r₁.u.field .schema = r.u.field .schema ∧ r₁.u.field .host = r.u.field .host := by
  rw [urlStep] at h
  dsimp only at h
  generalize parseUrlChar r.s c = s at h hlater
  rcases hlater with rfl | hlater
  · cases h
  · have hne : s ≠ .dead := by
      rintro rfl
      cases hlater
    have hat : decide (s = .reqServerWithAt) = false := by
      refine decide_eq_false ?_
      rintro rfl
      cases hlater
    rw [if_neg hne, hat, Bool.or_false] at h
    cases hpart : s.urlPart with
    | none =>
      rw [hpart] at h
      cases h
      exact ⟨rfl, hlater, rfl, rfl, rfl⟩
    | some uf =>
      have huf : UrlPart.schema ≠ uf ∧ UrlPart.host ≠ uf := by
        constructor
        · rintro rfl
          cases s <;> cases hlater <;> cases hpart
        · rintro rfl
          cases s <;> cases hlater <;> cases hpart
      rw [hpart] at h
      dsimp only at h
      split at h
      · cases h
        exact ⟨rfl, hlater, rfl, Function.update_of_ne huf.1 .., Function.update_of_ne huf.2 ..⟩
      · cases h
        exact ⟨rfl, hlater, rfl, Url.field_set_of_ne huf.1, Url.field_set_of_ne huf.2⟩

/-- A state behind the server leads behind it, as what may follow a server does. -/
theorem parseUrlChar_later (hs : s.later ∨ s.inServer ∧ ¬ isServerChar c) :
    parseUrlChar s c = .dead ∨ (parseUrlChar s c).later := by
  refine forall_byte (P := fun c => s.later ∨ s.inServer ∧ ¬ isServerChar c →
    parseUrlChar s c = .dead ∨ (parseUrlChar s c).later) ?_ c hs
  cases s with
  | reqPath | reqQueryStringStart | reqQueryString | reqFragmentStart | reqFragment
  | reqServerStart | reqServer | reqServerWithAt => decide +kernel
  | _ => exact fun _ _ hs => absurd hs (by simp [State.later, State.inServer])

theorem urlLoop_later (hl : ∀ c ∈ l.head?, parseUrlChar r.s c = .dead ∨ (parseUrlChar r.s c).later)
    (h : urlLoop r p l = some r') :
    r'.foundAt = r.foundAt ∧ r'.u.field .schema = r.u.field .schema ∧
      r'.u.field .host = r.u.field .host := by
  induction l generalizing r p with
  | nil =>
    cases h
    exact ⟨rfl, rfl, rfl⟩
  | cons c l ih =>
    obtain ⟨r₁, h₁, h₂⟩ := Option.bind_eq_some_iff.1 h
    obtain ⟨-, hlater, hfa, hschema, hhost⟩ := urlStep_later (hl c rfl) h₁
    obtain ⟨hfa', hschema', hhost'⟩ := ih (fun d _ => parseUrlChar_later (.inl hlater)) h₂
    exact ⟨hfa'.trans hfa, hschema'.trans hschema, hhost'.trans hhost⟩

/-! ## The parse -/

/-- How a text is accepted that does not stand in a `CONNECT`. -/
theorem parseUrl_eq_some_iff : parseUrl buf false = some u ↔
    buf ≠ [] ∧ ∃ r, urlLoop { s := .reqSpacesBeforeUrl } 0 buf = some r ∧
      ((r.u.field .schema).isSome → (r.u.field .host).isSome) ∧
      ∃ u₁, (r.u.field .host).elim (some r.u) (parseHost buf r.u · r.foundAt) = some u₁ ∧
        u₁.readPort buf = some u := by
  rw [parseUrl]
  by_cases hbuf : buf = []
  · rw [if_pos hbuf]
    exact ⟨fun h => absurd h.symm (Option.some_ne_none u), fun h => absurd hbuf h.1⟩
  rw [if_neg hbuf]
  simp only [Bool.false_eq_true, if_false, Bool.false_and, bind, Option.bind]
  cases hrun : urlLoop { s := .reqSpacesBeforeUrl } 0 buf with
  | none => exact ⟨fun h => absurd h.symm (Option.some_ne_none u),
      fun h => h.2.elim fun r hr => absurd hr.1.symm (Option.some_ne_none r)⟩
  | some r =>
    have hsome : (buf ≠ [] ∧ ∃ r', some r = some r' ∧
        ((r'.u.field .schema).isSome → (r'.u.field .host).isSome) ∧
          ∃ u₁, (r'.u.field .host).elim (some r'.u) (parseHost buf r'.u · r'.foundAt) = some u₁ ∧
            u₁.readPort buf = some u) ↔
        ((r.u.field .schema).isSome → (r.u.field .host).isSome) ∧
          ∃ u₁, (r.u.field .host).elim (some r.u) (parseHost buf r.u · r.foundAt) = some u₁ ∧
            u₁.readPort buf = some u := by
      refine ⟨?_, fun h => ⟨hbuf, r, rfl, h⟩⟩
      rintro ⟨-, _, ⟨⟩, h⟩
      exact h
    rw [hsome]
    dsimp only
    cases hhost : r.u.field .host with
    | none =>
      cases hschema : r.u.field .schema with
      | none => simp
      | some f => simp
    | some f =>
      cases hparse : parseHost buf r.u f r.foundAt with
      | none => simp [hparse]
      | some u₁ => simp [hparse]

/-- The loop over the digits sums them up, as long as they fit into 16 bits. -/
theorem portLoop_eq (hn : n ≤ 0xffff) : portLoop n l =
    let v := l.foldl (fun v c => v * 10 + (c - chr '0').toNat) n
    if v ≤ 0xffff then some v else none := by
  have hle : ∀ (l : List UInt8) (n : Nat),
      n ≤ l.foldl (fun v c => v * 10 + (c - chr '0').toNat) n := by
    intro l
    induction l with
    | nil => exact Nat.le_refl
    | cons c l ih => exact fun n => Nat.le_trans (by omega) (ih (n * 10 + (c - chr '0').toNat))
  induction l generalizing n with
  | nil => exact (if_pos hn).symm
  | cons c l ih =>
    rw [portLoop, List.foldl_cons]
    by_cases hc : 0xffff < n * 10 + (c - chr '0').toNat
    · rw [if_pos hc]
      exact (if_neg (Nat.not_le.2 (Nat.lt_of_lt_of_le hc (hle l _)))).symm
    · rw [if_neg hc, ih (Nat.not_lt.1 hc)]

theorem readPort_eq_some_iff (hpart : u.shown buf .port = part)
    {u' : Url} : u.readPort buf = some u' ↔ (∀ cs ∈ part, portValue cs ≤ 0xffff) ∧
      u' = { u with port := part.elim u.port portValue } := by
  subst hpart
  rw [Url.readPort, Url.shown]
  cases u.field .port with
  | none =>
    exact ⟨fun h => ⟨forall_mem_none, (Option.some.inj h).symm⟩, fun h => congrArg some h.2.symm⟩
  | some f =>
    dsimp only
    rw [portLoop_eq (Nat.zero_le _)]
    by_cases hfits : portValue ((buf.drop f.off).take f.len) ≤ 0xffff
    · have hu16 : u16 (portValue ((buf.drop f.off).take f.len)) =
          portValue ((buf.drop f.off).take f.len) := u16_of_lt (by omega)
      dsimp only
      rw [portValue] at hfits hu16
      rw [if_pos hfits, Option.map_some, hu16]
      simpa [portValue, eq_comm] using fun _ => hfits
    · dsimp only
      rw [portValue] at hfits
      rw [if_neg hfits]
      simpa [portValue] using fun hle => absurd hle hfits

/-! ## A text is read in its parts -/

theorem Stands.append_right (post : List UInt8) {text : List UInt8} (h : Stands part text p q) :
    Stands part (text ++ post) p q := by
  intro cs hcs
  obtain ⟨x, y, rfl, rfl⟩ := h cs hcs
  exact ⟨x, y ++ post, by simp only [List.append_assoc], rfl⟩

theorem Stands.self (text : List UInt8) (p : Nat) : Stands (some text) text p p := by
  rintro _ ⟨⟩
  exact ⟨[], [], (List.append_nil _).symm, rfl⟩

/-- Where the schema, the server and the path stand. -/
theorem UrlText.stands (t : UrlText) : Stands (t.part .schema) t.text 0 0 ∧
    Stands (t.server.map (·.2.text)) t.text 0 t.serverPos ∧
      Stands t.path t.text 0 t.front.length := by
  have hpath : Stands t.path (t.path.getD [] ++ t.tail) (0 + t.front.length) t.front.length := by
    cases t.path with
    | none => exact forall_mem_none
    | some cs =>
      rw [Nat.zero_add]
      exact (Stands.self cs _).append_right _
  rw [UrlText.part, UrlText.serverPos, UrlText.text_eq]
  refine ⟨?_, ?_, hpath.append _⟩
  · rw [UrlText.front]
    cases t.server with
    | none => exact forall_mem_none
    | some server =>
      exact (((Stands.self _ 0).append_right _).append_right _).append_right _
  · rw [UrlText.front]
    cases t.server with
    | none => exact forall_mem_none
    | some server =>
      refine Stands.append_right _ (Stands.append _ ?_)
      rw [Nat.zero_add, List.length_append]
      exact Stands.self _ _

theorem Url.port_set : (u.set uf p n).port = u.port := rfl

theorem Url.port_note : (u.note uf p part).port = u.port := by
  cases part with
  | none => rfl
  | some cs => rfl

theorem Url.shown_empty : ({} : Url).shown buf uf = none := rfl

/-- What each field shows behind the loop over the whole text, where the host is the server. -/
def UrlText.loopPart (t : UrlText) : UrlPart → Option (List UInt8)
  | .host => t.server.map (·.2.text)
  | .userinfo | .port => none
  | uf => t.part uf

theorem shown_noted (hlen : t.text.length < 2 ^ 16) (hq : Stands (t.part .query) t.text 0 q)
    (hq' : Stands (t.part .fragment) t.text 0 q') :
    (t.noted q q').shown t.text uf = t.loopPart uf := by
  obtain ⟨hschema, hserver, hpath⟩ := t.stands
  rw [UrlText.noted]
  cases uf with
  | schema =>
    simp (disch := decide) only [Url.shown_note_of_ne]
    exact Url.shown_note_self rfl hlen hschema
  | host =>
    simp (disch := decide) only [Url.shown_note_of_ne]
    refine Url.shown_note_self ?_ hlen hserver
    simp (disch := decide) only [Url.shown_note_of_ne, Url.shown_empty]
  | path =>
    simp (disch := decide) only [Url.shown_note_of_ne]
    refine Url.shown_note_self ?_ hlen hpath
    simp (disch := decide) only [Url.shown_note_of_ne, Url.shown_empty]
  | query =>
    simp (disch := decide) only [Url.shown_note_of_ne]
    refine Url.shown_note_self ?_ hlen hq
    simp (disch := decide) only [Url.shown_note_of_ne, Url.shown_empty]
  | fragment =>
    refine Url.shown_note_self ?_ hlen hq'
    simp (disch := decide) only [Url.shown_note_of_ne, Url.shown_empty]
  | userinfo | port =>
    simp (disch := decide) only [Url.shown_note_of_ne, Url.shown_empty]
    rfl

/-- What each field shows behind the loop over a server. -/
def Server.loopPart (a : Server) (other : UrlPart → Option (List UInt8)) :
    UrlPart → Option (List UInt8)
  | .userinfo => UrlText.part? a.user
  | .host => some a.host.inner
  | .port => a.port
  | uf => other uf

/-- A server that stands in a text is read. -/
theorem parseHost_text {a : Server} {pre post : List UInt8} (hbuf : buf = pre ++ a.text ++ post)
    (hlen : buf.length < 2 ^ 16) (ha : a.WellFormed)
    (hnone : u.shown buf .userinfo = none ∧ u.shown buf .port = none) :
    ∃ u₁, parseHost buf u ⟨pre.length, a.text.length⟩ a.user.isSome = some u₁ ∧ u₁.port = u.port ∧
      ∀ uf, u₁.shown buf uf = a.loopPart (u.shown buf) uf := by
  have hpre : pre.length < 2 ^ 16 := by
    rw [hbuf, List.length_append, List.length_append] at hlen
    omega
  have hset : { u with field := Function.update u.field .host (some ⟨pre.length, 0⟩) } =
      u.set .host pre.length 0 := by
    rw [Url.set, u16_of_lt hpre]
    rfl
  have htake : (buf.drop pre.length).take a.text.length = a.text := by
    rw [hbuf, List.append_assoc, List.drop_left, List.take_left]
  obtain ⟨s, q, q', hloop, hend, huser, hhost, hport⟩ := hostLoop_text (p := pre.length)
    (Url.field_set_self (u := u) (p := pre.length) (n := 0)) ha
  have hstands : ∀ {part q}, Stands part a.text pre.length q → Stands part buf 0 q := by
    intro part q hpart
    rw [hbuf]
    refine Stands.append_right _ (Stands.append _ ?_)
    rwa [Nat.zero_add]
  have hparse : parseHost buf u ⟨pre.length, a.text.length⟩ a.user.isSome =
      some ((((u.set .host pre.length 0).note .userinfo pre.length (UrlText.part? a.user)).set .host q
        a.host.inner.length).note .port q' a.port) := by
    rw [parseHost, htake]
    dsimp only
    rw [hset, hloop, Option.bind_some, if_pos hend]
  refine ⟨_, hparse, ?_, fun uf => ?_⟩
  · rw [Url.port_note, Url.port_set, Url.port_note, Url.port_set]
  · cases uf with
    | userinfo =>
      simp (disch := decide) only [Url.shown_note_of_ne, Url.shown_set_of_ne]
      refine Url.shown_note_self ?_ hlen (hstands huser)
      simp (disch := decide) only [Url.shown_set_of_ne, hnone]
    | host =>
      simp (disch := decide) only [Url.shown_note_of_ne]
      obtain ⟨x, y, htext, hq⟩ := hstands hhost _ rfl
      exact Url.shown_set_self htext hlen (hq.trans (Nat.zero_add _)) rfl
    | port =>
      refine Url.shown_note_self ?_ hlen (hstands hport)
      simp (disch := decide) only [Url.shown_note_of_ne, Url.shown_set_of_ne, hnone]
    | schema | path | query | fragment =>
      simp (disch := decide) only [Url.shown_note_of_ne, Url.shown_set_of_ne]
      rfl

theorem UrlText.Shaped.text_ne_nil (ht : t.Shaped) : t.text ≠ [] := by
  rw [UrlText.text_eq, UrlText.front]
  cases hserver : t.server with
  | none =>
    cases hpath : t.path with
    | none => exact absurd hpath (ht.path_of_none hserver)
    | some cs =>
      obtain ⟨c, cs, rfl, -⟩ := ht.path cs hpath
      exact List.cons_ne_nil _ _
  | some server =>
    obtain ⟨c, l, hl⟩ := List.exists_cons_of_ne_nil (ht.server _ hserver).1
    rw [Option.elim_some, hl]
    exact List.cons_ne_nil _ _

/-- A text in its parts is read, up to the value of its port. -/
theorem parseUrl_text (ht : t.Shaped) (hlen : t.text.length < 2 ^ 16) :
    ∃ u₁ : Url, (∀ uf, u₁.shown t.text uf = t.part uf) ∧ u₁.port = 0 ∧
      ∀ u, parseUrl t.text false = some u ↔ u₁.readPort t.text = some u := by
  obtain ⟨r, q, q', hloop, hfa, hu, hquery, hfragment⟩ := urlLoop_text ht
  have hshown : ∀ uf, (t.noted q q').shown t.text uf = t.loopPart uf := fun uf =>
    shown_noted hlen hquery hfragment
  have hport : (t.noted q q').port = 0 := by
    simp only [UrlText.noted, Url.port_note]
  have hne := ht.text_ne_nil
  -- the run is known, so the first conditions of the parse hold
  have hparse : ∀ u u₁, (r.u.field .host).elim (some r.u) (parseHost t.text r.u · r.foundAt) =
      some u₁ → ((r.u.field .schema).isSome → (r.u.field .host).isSome) →
        (parseUrl t.text false = some u ↔ u₁.readPort t.text = some u) := by
    intro u u₁ hu₁ hschema
    rw [parseUrl_eq_some_iff]
    constructor
    · rintro ⟨-, r', hr', -, u₂, hu₂, hu⟩
      obtain rfl := Option.some.inj (hloop.symm.trans hr')
      obtain rfl := Option.some.inj (hu₁.symm.trans hu₂)
      exact hu
    · exact fun hu => ⟨hne, r, hloop, hschema, u₁, hu₁, hu⟩
  rw [hu] at hparse
  cases hserver : t.server with
  | none =>
    have hnone : ∀ uf, t.loopPart uf = none → (t.noted q q').field uf = none := by
      intro uf huf
      rwa [← hshown, Url.shown, Option.map_eq_none_iff] at huf
    refine ⟨t.noted q q', fun uf => ?_, hport, fun u => hparse u _ ?_ ?_⟩
    · rw [hshown]
      cases uf with
      | host | userinfo | port => rw [UrlText.loopPart, UrlText.part, hserver]; rfl
      | schema | path | query | fragment => rfl
    · have hhost : t.server.map (·.2.text) = none := by rw [hserver, Option.map_none]
      rw [hnone .host hhost, Option.elim_none]
    · have hschema : t.server.map (·.1) = none := by rw [hserver, Option.map_none]
      rw [hnone .schema hschema]
      exact fun h => absurd h Bool.false_ne_true
  | some server =>
    obtain ⟨schema, a⟩ := server
    have hshape := (ht.server _ hserver).2.2
    have htext : t.text = schema ++ ascii "://" ++ a.text ++ (t.path.getD [] ++ t.tail) := by
      rw [UrlText.text_eq, UrlText.front, hserver]
      rfl
    have hpos : t.serverPos = (schema ++ ascii "://").length := by
      rw [UrlText.serverPos, hserver, List.length_append]
      rfl
    have hhost : (t.noted q q').field .host =
        some ⟨(schema ++ ascii "://").length, a.text.length⟩ := by
      have hlen' := hlen
      rw [htext, List.length_append, List.length_append] at hlen'
      rw [UrlText.noted]
      simp (disch := decide) only [Url.field_note_of_ne]
      rw [hserver, hpos]
      refine Url.field_set_self.trans ?_
      dsimp only
      rw [u16_of_lt (by omega), u16_of_lt (by omega)]
    obtain ⟨u₁, hread, hport₁, hshown₁⟩ := parseHost_text (u := t.noted q q') htext hlen hshape
      ⟨hshown .userinfo, hshown .port⟩
    refine ⟨u₁, fun uf => ?_, hport₁.trans hport, fun u => hparse u u₁ ?_ ?_⟩
    · rw [hshown₁]
      cases uf with
      | host | userinfo | port => rw [Server.loopPart, UrlText.part, hserver]; rfl
      | schema | path | query | fragment => exact hshown _
    · rw [hhost, hfa, hserver]
      exact hread
    · rw [hhost]
      exact fun _ => rfl

/-! ## What is accepted is a text in its parts -/

/-- A server that does not die ends in one of its states. -/
theorem foldl_inServer (hs : s.inServer) (hnil : l ≠ []) (hl : ∀ c ∈ l, isServerChar c)
    (hne : l.foldl parseUrlChar s ≠ .dead) :
    l.foldl parseUrlChar s = .reqServer ∨ l.foldl parseUrlChar s = .reqServerWithAt := by
  induction l generalizing s with
  | nil => exact absurd rfl hnil
  | cons c l ih =>
    rw [List.forall_mem_cons] at hl
    obtain ⟨hpart, hs', -⟩ := inServer_next hs hl.1 hne
    by_cases hl' : l = []
    · subst hl'
      rw [List.foldl_cons, List.foldl_nil]
      generalize parseUrlChar s c = s' at hpart hs'
      cases s' with
      | reqServer => exact .inl rfl
      | reqServerWithAt => exact .inr rfl
      | reqServerStart => cases hpart
      | _ => cases hs'
    · exact ih hs' hl' hl.2 hne

/-- A delimiter stands here, unless the parse fails for want of a host. -/
theorem exists_delim {d : UInt8} {old : Option UrlPart} {fa : Bool} (s' : State)
    (hd : ∀ c ∈ l.head?, s.lets c → c = d) (hs : parseUrlChar s d = s')
    (hpart : s'.urlPart = none) (hne : s' ≠ .dead)
    (hu : (u.field .schema).isSome ∧ u.field .host = none)
    (hloop : urlLoop ⟨s, old, fa, u⟩ p l = some r')
    (hhost : (r'.u.field .schema).isSome → (r'.u.field .host).isSome) :
    ∃ rest, l = d :: rest ∧ urlLoop ⟨s', old, fa, u⟩ (p + 1) rest = some r' := by
  cases l with
  | nil =>
    cases hloop
    have hsome := hhost hu.1
    rw [hu.2] at hsome
    cases hsome
  | cons c l =>
    cases hlets : s.lets c with
    | false =>
      rw [urlLoop, urlStep] at hloop
      dsimp only at hloop
      rw [if_pos (parseUrlChar_eq_dead_iff.2 hlets)] at hloop
      cases hloop
    | true =>
      obtain rfl := hd c rfl hlets
      rw [← hloop]
      exact ⟨l, rfl, (urlLoop_skip s' hs hpart hne).symm⟩

/-- Behind the schema comes a server, unless the parse fails for want of a host. -/
theorem exists_authority (hs : r.s = .reqSchema) (hold : r.oldUf ≠ some .host)
    (hr : (r.u.field .schema).isSome ∧ r.u.field .host = none)
    (hl : ∀ c ∈ l.head?, ¬ isAlpha c) (hloop : urlLoop r p l = some r')
    (hhost : (r'.u.field .schema).isSome → (r'.u.field .host).isSome) :
    ∃ server rest, l = ascii "://" ++ (server ++ rest) ∧ server ≠ [] ∧
      (∀ c ∈ server, isServerChar c) ∧ (∀ c ∈ rest.head?, ¬ isServerChar c) ∧
      server.foldl parseUrlChar .reqServerStart ≠ .dead ∧
      rest.foldl parseUrlChar (server.foldl parseUrlChar .reqServerStart) ≠ .dead ∧
      r'.foundAt = (r.foundAt || server.contains (chr '@')) ∧
      r'.u.field .host = some ⟨u16 (p + 3), u16 server.length⟩ := by
  obtain ⟨s, old, fa, u⟩ := r
  dsimp only at hs hold hr ⊢
  subst hs
  obtain ⟨l, rfl, hloop₁⟩ := exists_delim .reqSchemaSlash
    (fun c hc hlets => by simpa [State.lets, hl c hc] using hlets) (by decide) rfl nofun hr hloop
    hhost
  obtain ⟨l, rfl, hloop₂⟩ := exists_delim .reqSchemaSlashSlash
    (fun c _ hlets => by simpa [State.lets] using hlets) (by decide) rfl nofun hr hloop₁ hhost
  obtain ⟨l, rfl, hloop₃⟩ := exists_delim .reqServerStart
    (fun c _ hlets => by simpa [State.lets] using hlets) (by decide) rfl nofun hr hloop₂ hhost
  clear hloop hloop₁ hloop₂ hl
  rename' hloop₃ => hloop
  have hstart : State.reqServerStart ≠ .dead := by decide
  have halive := foldl_of_urlLoop hloop hstart
  have hsplit : l = l.takeWhile isServerChar ++ l.dropWhile isServerChar :=
    List.takeWhile_append_dropWhile.symm
  have hserver : ∀ c ∈ l.takeWhile isServerChar, isServerChar c :=
    fun c hc => List.mem_takeWhile_imp hc
  have hrest : ∀ c ∈ (l.dropWhile isServerChar).head?, ¬ isServerChar c := by
    intro c hc
    have hnot := List.head?_dropWhile_not isServerChar l
    rw [Option.mem_def.1 hc] at hnot
    simpa using hnot
  generalize l.takeWhile isServerChar = server at hsplit hserver
  generalize l.dropWhile isServerChar = rest at hsplit hrest
  subst hsplit
  dsimp only at halive hloop
  rw [List.foldl_append] at halive
  have hne := Scan.ne_of_foldl_ne parseUrlChar_dead halive
  have hnil : server ≠ [] := by
    rintro rfl
    obtain ⟨-, hschema', hhost'⟩ :=
      urlLoop_later (fun c hc => parseUrlChar_later (.inr ⟨rfl, hrest c hc⟩)) hloop
    dsimp only at hschema' hhost'
    rw [hschema', hhost', hr.2] at hhost
    cases hhost hr.1
  refine ⟨server, rest, rfl, hnil, hserver, hrest, hne, halive, ?_⟩
  rw [urlLoop_server hold hnil hserver hne] at hloop
  have hin : (server.foldl parseUrlChar .reqServerStart).inServer := by
    rcases foldl_inServer rfl hnil hserver hne with h | h
    · rw [h]; rfl
    · rw [h]; rfl
  obtain ⟨hfa, -, hfield⟩ := urlLoop_later
    (fun c hc => parseUrlChar_later (.inr ⟨hin, hrest c hc⟩)) hloop
  exact ⟨hfa, hfield.trans Url.field_set_self⟩

/-- A server that is read where it stands is the text of one. -/
theorem exists_server_of_parseHost {pre server post : List UInt8} {foundAt : Bool} {u₁ : Url}
    (hbuf : buf = pre ++ server ++ post)
    (h : parseHost buf u ⟨pre.length, server.length⟩ foundAt = some u₁) :
    ∃ a : Server, a.WellFormed ∧ a.text = server := by
  obtain ⟨⟨s, u₂⟩, hloop, hend⟩ := Option.bind_eq_some_iff.1 h
  have htake : (buf.drop pre.length).take server.length = server := by
    rw [hbuf, List.append_assoc, List.drop_left, List.take_left]
  dsimp only at hloop hend
  rw [htake] at hloop
  have hstart : (if foundAt then HostState.userinfoStart else .hostStart) ≠ .dead := by
    cases foundAt with
    | false => decide
    | true => decide
  obtain ⟨rfl, hne⟩ := foldl_of_hostLoop hstart hloop
  have hend' : (server.foldl parseHostChar
      (if foundAt then HostState.userinfoStart else .hostStart)).isEnd := by
    by_contra hnot
    rw [if_neg hnot] at hend
    cases hend
  obtain ⟨a, ha, htext, -⟩ := exists_server ⟨hne, hend'⟩
  exact ⟨a, ha, htext⟩

/-- What is accepted is a text in its parts. -/
theorem exists_shaped (hlen : buf.length < 2 ^ 16) (h : parseUrl buf false = some u) :
    ∃ t : UrlText, t.Shaped ∧ t.text = buf := by
  obtain ⟨hne, r, hloop, hschema, u₁, hhost, -⟩ := parseUrl_eq_some_iff.1 h
  have halive := foldl_of_urlLoop hloop (by decide)
  obtain ⟨c, l, rfl⟩ := List.exists_cons_of_ne_nil hne
  have hc : (c = chr '/' ∨ c = chr '*') ∨ isAlpha c := by
    simpa [State.lets] using lets_of_foldl_ne halive
  rcases hc with hc | hc
  · have hnext : parseUrlChar .reqSpacesBeforeUrl c = .reqPath := by
      rcases hc with rfl | rfl
      · decide
      · decide
    dsimp only at halive
    rw [List.foldl_cons, hnext] at halive
    obtain ⟨path, query, fragment, rfl, hpath, hquery, hfragment⟩ := exists_path halive
    refine ⟨⟨none, some (c :: path), query, fragment⟩, ⟨forall_mem_none, ?_,
      fun _ => Option.some_ne_none _, hquery, hfragment, fun h => absurd h (Option.some_ne_none _)⟩,
      ?_⟩
    · rintro _ ⟨⟩
      exact ⟨c, path, rfl, hc.imp_right fun hstar => ⟨hstar, rfl⟩, hpath⟩
    · simp [UrlText.text, UrlText.front]
  · obtain ⟨run, rest, rfl, hrun, -, hrest⟩ :=
      Scan.exists_run (P := isAlpha) (fun c hc => (parseUrlChar_schema hc).2) l
    have hstay : ∀ d ∈ run, parseUrlChar .reqSchema d = .reqSchema :=
      fun d hd => (parseUrlChar_schema (hrun d hd)).2
    have hold : (none : Option UrlPart) ≠ some .schema := (Option.some_ne_none _).symm
    have hold' : some UrlPart.schema ≠ some .host := by decide
    rw [← List.cons_append, urlLoop_part (parseUrlChar_schema hc).1 rfl (by decide) hold hstay] at hloop
    have hu : ((({} : Url).set .schema 0 (c :: run).length).field .schema).isSome ∧
        (({} : Url).set .schema 0 (c :: run).length).field .host = none :=
      ⟨by rw [Url.field_set_self]; rfl, Url.field_set_of_ne (by decide)⟩
    obtain ⟨server, rest, rfl, -, -, hhead, hne', halive', -, hfield⟩ :=
      exists_authority rfl hold' hu hrest hloop hschema
    have hbuf : c :: (run ++ (ascii "://" ++ (server ++ rest))) =
        (c :: run ++ ascii "://") ++ server ++ rest := by
      simp only [List.cons_append, List.append_assoc]
    rw [hbuf] at hhost hlen ⊢
    have hlens := hlen
    rw [List.length_append, List.length_append] at hlens
    have hpos : 0 + (c :: run).length + 3 = (c :: run ++ ascii "://").length := by
      rw [List.length_append, Nat.zero_add]
      rfl
    rw [hfield, hpos, u16_of_lt (by omega), u16_of_lt (by omega)] at hhost
    obtain ⟨a, ha, rfl⟩ := exists_server_of_parseHost rfl hhost
    rw [(server_text ha).2.1] at halive'
    obtain ⟨path, query, fragment, rfl, hpath, hquery, hfragment, hnone⟩ :=
      exists_behind (.inl rfl) halive' hhead
    refine ⟨⟨some (c :: run, a), path, query, fragment⟩, ⟨?_, ?_,
      fun h => absurd h (Option.some_ne_none _), hquery, hfragment, hnone⟩,
      ?_⟩
    · rintro _ ⟨⟩
      exact ⟨List.cons_ne_nil c run, List.forall_mem_cons.2 ⟨hc, hrun⟩, ha⟩
    · intro cs hcs
      obtain ⟨cs', rfl, hcs'⟩ := hpath cs hcs
      exact ⟨chr '/', cs', rfl, .inl rfl, hcs'⟩
    · simp only [UrlText.text, UrlText.front, Option.elim_some, List.append_assoc]

/-- What is read is what a well-formed text shows; no other text is accepted. Offsets and lengths have
16 bits, so the text is shorter than that. -/
theorem parseUrl_spec (hlen : buf.length < 2 ^ 16) :
    (∀ u, parseUrl buf false = some u → ∃ t : UrlText, t.WellFormed ∧ t.text = buf ∧ u.Shows t) ∧
      ∀ t : UrlText, t.WellFormed → t.text = buf → ∃ u, parseUrl buf false = some u ∧ u.Shows t := by
  constructor
  · intro u hu
    obtain ⟨t, ht, rfl⟩ := exists_shaped hlen hu
    obtain ⟨u₁, hshown, hport, hparse⟩ := parseUrl_text ht hlen
    obtain ⟨hfits, rfl⟩ := (readPort_eq_some_iff (hshown .port)).1 ((hparse u).1 hu)
    refine ⟨t, ⟨ht, hfits⟩, rfl, hshown, ?_⟩
    rw [hport]
  · rintro t ht rfl
    obtain ⟨u₁, hshown, hport, hparse⟩ := parseUrl_text ht.toShaped hlen
    refine ⟨{ u₁ with port := (t.part .port).elim u₁.port portValue }, ?_, hshown, ?_⟩
    · exact (hparse _).2 ((readPort_eq_some_iff (hshown .port)).2 ⟨ht.port, rfl⟩)
    · rw [hport]

/-- `a://u@[:]:8/?q#` -/
theorem parseUrl_spec_small : ∃ u, parseUrl
    [97, 58, 47, 47, 117, 64, 91, 58, 93, 58, 56, 47, 63, 113, 35] false = some u ∧ u.port = 8 ∧
    ∃ t : UrlText, t.WellFormed ∧
      t.text = [97, 58, 47, 47, 117, 64, 91, 58, 93, 58, 56, 47, 63, 113, 35] ∧ u.Shows t :=
  ⟨_, rfl, rfl, (parseUrl_spec (by decide)).1 _ rfl⟩

end SNet.Http.Parser
