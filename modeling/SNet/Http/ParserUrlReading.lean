import SNet.Http.ParserHost

/-!
# Reading the parts of a URL
-/

namespace SNet.Http.Parser

variable {u : Url} {uf uf' : UrlPart} {p q n : Nat} {buf pre mid post l rest : List UInt8}
  {s s' : State} {old : Option UrlPart} {fa : Bool} {c : UInt8} {part : Option (List UInt8)}
  {a : Server} {t : UrlText}

/-! ## The loop over the URL -/

/-- A delimiter. -/
theorem urlLoop_skip (s' : State) (hs : parseUrlChar s c = s') (hpart : s'.urlPart = none)
    (hne : s' ≠ .dead) :
    urlLoop ⟨s, old, fa, u⟩ p (c :: rest) = urlLoop ⟨s', old, fa, u⟩ (p + 1) rest := by
  have hat : s' ≠ .reqServerWithAt := by
    rintro rfl
    cases hpart
  rw [urlLoop, urlStep]
  dsimp only
  rw [hs, if_neg hne, hpart, decide_eq_false hat, Bool.or_false]
  rfl

/-- The first character of a part. -/
theorem urlLoop_begin (s' : State) (hs : parseUrlChar s c = s') (hpart : s'.urlPart = some uf)
    (hold : old ≠ some uf) :
    urlLoop ⟨s, old, fa, u⟩ p (c :: rest) =
      urlLoop ⟨s', some uf, fa || s' = .reqServerWithAt, u.set uf p 1⟩ (p + 1) rest := by
  have hne : s' ≠ .dead := by
    rintro rfl
    cases hpart
  rw [urlLoop, urlStep]
  dsimp only
  rw [hs, if_neg hne, hpart]
  dsimp only
  rw [if_neg hold]
  rfl

/-- A further character of a part. -/
theorem urlLoop_more (s' : State) (hs : parseUrlChar s c = s') (hpart : s'.urlPart = some uf) :
    urlLoop ⟨s, some uf, fa, u.set uf q n⟩ p (c :: rest) =
      urlLoop ⟨s', some uf, fa || s' = .reqServerWithAt, u.set uf q (n + 1)⟩ (p + 1) rest := by
  have hne : s' ≠ .dead := by
    rintro rfl
    cases hpart
  rw [urlLoop, urlStep]
  dsimp only
  rw [hs, if_neg hne, hpart]
  dsimp only
  rw [if_pos rfl, Url.grow_set]
  rfl

/-- Characters that leave the machine in a state of the part. -/
theorem urlLoop_stay (hpart : s.urlPart = some uf) (hat : s ≠ .reqServerWithAt)
    (hl : ∀ c ∈ l, parseUrlChar s c = s) :
    urlLoop ⟨s, some uf, fa, u.set uf q n⟩ p (l ++ rest) =
      urlLoop ⟨s, some uf, fa, u.set uf q (n + l.length)⟩ (p + l.length) rest := by
  induction l generalizing n p with
  | nil => rfl
  | cons c l ih =>
    rw [List.forall_mem_cons] at hl
    rw [List.cons_append, urlLoop_more _ hl.1 hpart, decide_eq_false hat, Bool.or_false, ih hl.2,
      List.length_cons, Nat.add_right_comm p, Nat.add_right_comm n, Nat.add_assoc p, Nat.add_assoc n]

/-- A part all of whose characters leave the machine in one state. -/
theorem urlLoop_part (hs : parseUrlChar s c = s') (hpart : s'.urlPart = some uf)
    (hat : s' ≠ .reqServerWithAt) (hold : old ≠ some uf) (hl : ∀ c ∈ l, parseUrlChar s' c = s') :
    urlLoop ⟨s, old, fa, u⟩ p (c :: l ++ rest) =
      urlLoop ⟨s', some uf, fa, u.set uf p (c :: l).length⟩ (p + (c :: l).length) rest := by
  rw [List.cons_append, urlLoop_begin _ hs hpart hold, decide_eq_false hat, Bool.or_false,
    urlLoop_stay hpart hat hl, List.length_cons, Nat.add_right_comm p, Nat.add_comm 1, Nat.add_assoc p]

/-! ## Characters of the parts -/

/-- A character of a server. -/
def isServerChar (c : UInt8) : Bool :=
  isUserinfoChar c || c == chr '[' || c == chr ']' || c == chr '@'

/-- The characters of the parts, which lead into their states and keep them. -/
theorem parseUrlChar_keeps (c : UInt8) :
    (isAlpha c → parseUrlChar .reqSpacesBeforeUrl c = .reqSchema ∧
      parseUrlChar .reqSchema c = .reqSchema) ∧
    (isUrlChar c → parseUrlChar .reqPath c = .reqPath) ∧
    (isQueryChar c → parseUrlChar .reqQueryStringStart c = .reqQueryString ∧
      parseUrlChar .reqQueryString c = .reqQueryString) ∧
    (isFragmentChar c → parseUrlChar .reqFragmentStart c =
      (if c = chr '#' then .reqFragmentStart else .reqFragment) ∧
        parseUrlChar .reqFragment c = .reqFragment) := by
  revert c
  exact forall_byte (by decide +kernel)

/-- The characters of a server, which keep its states, and those of its parts. -/
theorem isServerChar_table (c : UInt8) :
    (isServerChar c →
      parseUrlChar .reqServerStart c = (if c = chr '@' then .reqServerWithAt else .reqServer) ∧
      parseUrlChar .reqServer c = (if c = chr '@' then .reqServerWithAt else .reqServer) ∧
      (parseUrlChar .reqServerWithAt c = (if c = chr '@' then .reqServerWithAt else .reqServer) ∨
        c = chr '@' ∧ parseUrlChar .reqServerWithAt c = .dead)) ∧
    (isUserinfoChar c ∨ isHostChar c ∨ Host.isAddressChar c ∨ Host.isZoneChar c ∨ isNumber c →
      isServerChar c ∧ c ≠ chr '@') := by
  revert c
  exact forall_byte (by decide +kernel)

theorem parseUrlChar_schema (h : isAlpha c) :
    parseUrlChar .reqSpacesBeforeUrl c = .reqSchema ∧ parseUrlChar .reqSchema c = .reqSchema :=
  (parseUrlChar_keeps c).1 h

theorem parseUrlChar_path (h : isUrlChar c) : parseUrlChar .reqPath c = .reqPath :=
  (parseUrlChar_keeps c).2.1 h

theorem parseUrlChar_query (h : isQueryChar c) :
    parseUrlChar .reqQueryStringStart c = .reqQueryString ∧
      parseUrlChar .reqQueryString c = .reqQueryString :=
  (parseUrlChar_keeps c).2.2.1 h

theorem parseUrlChar_fragment (h : isFragmentChar c) :
    parseUrlChar .reqFragmentStart c = (if c = chr '#' then .reqFragmentStart else .reqFragment) ∧
      parseUrlChar .reqFragment c = .reqFragment :=
  (parseUrlChar_keeps c).2.2.2 h

/-- The states of a server. -/
def State.inServer : State → Bool
  | .reqServerStart | .reqServer | .reqServerWithAt => true
  | _ => false

theorem parseUrlChar_server (hs : s.inServer) (h : isServerChar c) :
    parseUrlChar s c = (if c = chr '@' then .reqServerWithAt else .reqServer) ∨
      s = .reqServerWithAt ∧ c = chr '@' ∧ parseUrlChar s c = .dead := by
  obtain ⟨hstart, hserver, hat⟩ := (isServerChar_table c).1 h
  cases s with
  | reqServerStart => exact .inl hstart
  | reqServer => exact .inl hserver
  | reqServerWithAt => exact hat.imp_right fun hdead => ⟨rfl, hdead⟩
  | _ => cases hs

theorem parseUrlChar_dead (c : UInt8) : parseUrlChar .dead c = .dead := ite_self _

/-- A scan of a server that does not die stays there, and finds an `@` where one stands. -/
theorem inServer_next (hs : s.inServer) (h : isServerChar c)
    (hne : (c :: l).foldl parseUrlChar s ≠ .dead) :
    (parseUrlChar s c).urlPart = some .host ∧ (parseUrlChar s c).inServer ∧
      decide (parseUrlChar s c = .reqServerWithAt) = (chr '@' == c) := by
  have hc : parseUrlChar s c = if c = chr '@' then .reqServerWithAt else .reqServer :=
    (parseUrlChar_server hs h).resolve_right fun hdead =>
      Scan.step_ne_of_foldl_ne parseUrlChar_dead hne hdead.2.2
  rw [hc]
  by_cases hat : c = chr '@'
  · rw [if_pos hat, hat]
    exact ⟨rfl, rfl, by decide⟩
  · rw [if_neg hat]
    exact ⟨rfl, rfl, (beq_eq_false_iff_ne.2 (Ne.symm hat)).symm⟩

/-- The machine of URLs runs over a server, and notes whether there is an `@`. -/
theorem urlLoop_serverStay (hs : s.inServer) (hl : ∀ c ∈ l, isServerChar c)
    (hne : l.foldl parseUrlChar s ≠ .dead) :
    urlLoop ⟨s, some .host, fa, u.set .host q n⟩ p (l ++ rest) =
      urlLoop ⟨l.foldl parseUrlChar s, some .host, fa || l.contains (chr '@'),
        u.set .host q (n + l.length)⟩ (p + l.length) rest := by
  induction l generalizing s fa n p with
  | nil =>
    rw [List.contains_nil, Bool.or_false]
    rfl
  | cons c l ih =>
    rw [List.forall_mem_cons] at hl
    obtain ⟨hpart, hs', hat⟩ := inServer_next hs hl.1 hne
    rw [List.cons_append, urlLoop_more _ rfl hpart, ih hs' hl.2 hne, hat,
      List.contains_cons, Bool.or_assoc, List.length_cons, Nat.add_right_comm p,
      Nat.add_right_comm n, Nat.add_assoc p, Nat.add_assoc n]
    rfl

theorem urlLoop_server (hold : old ≠ some .host) (hnil : l ≠ []) (hl : ∀ c ∈ l, isServerChar c)
    (hne : l.foldl parseUrlChar .reqServerStart ≠ .dead) :
    urlLoop ⟨.reqServerStart, old, fa, u⟩ p (l ++ rest) =
      urlLoop ⟨l.foldl parseUrlChar .reqServerStart, some .host, fa || l.contains (chr '@'),
        u.set .host p l.length⟩ (p + l.length) rest := by
  obtain ⟨c, l, rfl⟩ := List.exists_cons_of_ne_nil hnil
  rw [List.forall_mem_cons] at hl
  obtain ⟨hpart, hs', hat⟩ := inServer_next (s := .reqServerStart) rfl hl.1 hne
  rw [List.cons_append, urlLoop_begin _ rfl hpart hold, urlLoop_serverStay hs' hl.2 hne, hat,
    List.contains_cons, Bool.or_assoc, List.length_cons, Nat.add_right_comm p,
    Nat.add_comm 1, Nat.add_assoc p]
  rfl

/-! ## The server -/

/-- The characters of the parts of a server are characters of it, and no `@`. -/
theorem isServerChar_of (h : isUserinfoChar c ∨ isHostChar c ∨ Host.isAddressChar c ∨
    Host.isZoneChar c ∨ isNumber c) : isServerChar c ∧ c ≠ chr '@' :=
  (isServerChar_table c).2 h

/-- The characters of an optional part with one in front are of a class if all of them are. -/
theorem forall_mem_led {P : UInt8 → Prop} {d : UInt8} (hd : P d)
    (hpart : ∀ cs ∈ part, ∀ c ∈ cs, P c) : ∀ c ∈ led d part, P c := by
  cases part with
  | none => exact fun c hc => absurd hc List.not_mem_nil
  | some cs => exact List.forall_mem_cons.2 ⟨hd, hpart cs rfl⟩

theorem isServerChar_behind (ha : a.WellFormed) :
    ∀ c ∈ a.behind, isServerChar c ∧ c ≠ chr '@' := by
  have hhost := ha.host
  have hport := forall_mem_led (P := fun c => isServerChar c ∧ c ≠ chr '@') (d := chr ':')
    (by decide) fun cs hcs c hc =>
      isServerChar_of (.inr (.inr (.inr (.inr ((ha.port cs hcs).2 c hc)))))
  refine List.forall_mem_append.2 ⟨?_, hport⟩
  cases hh : a.host with
  | name cs =>
    rw [hh] at hhost
    exact fun c hc => isServerChar_of (.inr (.inl (hhost.2 c hc)))
  | literal address zone =>
    rw [hh] at hhost
    have hzone := forall_mem_led (P := fun c => isServerChar c ∧ c ≠ chr '@') (d := chr '%')
      (by decide) fun cs hcs c hc =>
        isServerChar_of (.inr (.inr (.inr (.inl ((hhost.2 cs hcs).2 c hc)))))
    refine List.forall_mem_cons.2 ⟨by decide, List.forall_mem_append.2 ⟨?_, ?_⟩⟩
    · exact fun c hc => isServerChar_of (.inr (.inr (.inl (hhost.1.2 c hc))))
    · exact List.forall_mem_append.2 ⟨hzone, List.forall_mem_singleton.2 (by decide)⟩

theorem behind_ne_nil (ha : a.WellFormed) : a.behind ≠ [] := by
  have hhost := ha.host
  rw [Server.behind]
  cases hh : a.host with
  | name cs =>
    rw [hh] at hhost
    exact List.append_ne_nil_of_left_ne_nil hhost.1 _
  | literal address zone => exact List.append_ne_nil_of_left_ne_nil (List.cons_ne_nil _ _) _

theorem text_ne_nil (ha : a.WellFormed) : a.text ≠ [] :=
  List.append_ne_nil_of_right_ne_nil _ (behind_ne_nil ha)

/-- Characters of a server without an `@` end in the state of the server. -/
theorem foldl_server (hs : s.inServer) (hnil : l ≠ [])
    (hl : ∀ c ∈ l, isServerChar c ∧ c ≠ chr '@') : l.foldl parseUrlChar s = .reqServer := by
  have hstep : ∀ s : State, s.inServer → ∀ c, isServerChar c ∧ c ≠ chr '@' →
      parseUrlChar s c = .reqServer := by
    intro s hs c hc
    have hnext := (parseUrlChar_server hs hc.1).resolve_right fun hdead => hc.2 hdead.2.1
    rwa [if_neg hc.2] at hnext
  obtain ⟨c, l, rfl⟩ := List.exists_cons_of_ne_nil hnil
  rw [List.forall_mem_cons] at hl
  rw [List.foldl_cons, hstep s hs c hl.1,
    Scan.foldl_stay fun d hd => hstep .reqServer rfl d (hl.2 d hd)]

/-- The scan of a server. -/
theorem server_text (ha : a.WellFormed) : (∀ c ∈ a.text, isServerChar c) ∧
    a.text.foldl parseUrlChar .reqServerStart = .reqServer ∧
      a.text.contains (chr '@') = a.user.isSome := by
  have hbehind := isServerChar_behind ha
  have hnil := behind_ne_nil ha
  have hnot : a.behind.contains (chr '@') = false :=
    Bool.eq_false_iff.2 fun hat => (hbehind _ (List.contains_iff_mem.1 hat)).2 rfl
  rw [Server.text, Server.front]
  cases huser : a.user with
  | none => exact ⟨fun c hc => (hbehind c hc).1, foldl_server rfl hnil hbehind, hnot⟩
  | some user =>
    have hchars := fun c hc => isServerChar_of (.inl (ha.user user huser c hc))
    rw [Option.elim_some]
    refine ⟨?_, ?_, ?_⟩
    · exact List.forall_mem_append.2 ⟨List.forall_mem_append.2 ⟨fun c hc => (hchars c hc).1,
        List.forall_mem_singleton.2 (by decide)⟩, fun c hc => (hbehind c hc).1⟩
    · rw [List.foldl_append, List.foldl_append]
      have hat : parseUrlChar (user.foldl parseUrlChar .reqServerStart) (chr '@') =
          .reqServerWithAt := by
        by_cases hempty : user = []
        · rw [hempty]
          decide
        · rw [foldl_server rfl hempty hchars]
          decide
      rw [List.foldl_cons, hat]
      exact foldl_server rfl hnil hbehind
    · rw [List.contains_iff_mem.2]
      · rfl
      · simp

/-! ## What follows the path -/

/-- A fragment begins behind the last `#` in front of it. -/
theorem urlLoop_fragment (run : UrlRun) (p : Nat)
    (hs : parseUrlChar run.s (chr '#') = .reqFragmentStart)
    (hold : run.oldUf ≠ some .fragment) (hl : ∀ c ∈ l, isFragmentChar c) :
    ∃ r q, urlLoop run p (chr '#' :: l) = some r ∧ r.foundAt = run.foundAt ∧
      r.u = run.u.note .fragment q (UrlText.part? (some (l.dropWhile (· == chr '#')))) ∧
      Stands (UrlText.part? (some (l.dropWhile (· == chr '#')))) (chr '#' :: l) p q := by
  obtain ⟨s, old, fa, u⟩ := run
  dsimp only at hs hold ⊢
  induction l generalizing s p with
  | nil =>
    rw [urlLoop_skip _ hs rfl (by decide)]
    exact ⟨_, 0, rfl, rfl, rfl, nofun⟩
  | cons c l ih =>
    rw [List.forall_mem_cons] at hl
    have hc := parseUrlChar_fragment hl.1
    by_cases hhash : c = chr '#'
    · subst hhash
      obtain ⟨r, q, hr, hfa, hu, hstands⟩ := ih (p + 1) hl.2 .reqFragmentStart hc.1
      refine ⟨r, q, ?_, hfa, ?_, ?_⟩
      · rw [urlLoop_skip _ hs rfl (by decide), hr]
      · rw [List.dropWhile_cons_of_pos (by rfl), hu]
      · rw [List.dropWhile_cons_of_pos (by rfl)]
        exact hstands.append [chr '#']
    · have hdrop : (c :: l).dropWhile (· == chr '#') = c :: l :=
        List.dropWhile_cons_of_neg (by simpa using hhash)
      rw [if_neg hhash] at hc
      have hstay : ∀ d ∈ l, parseUrlChar .reqFragment d = .reqFragment :=
        fun d hd => (parseUrlChar_fragment (hl.2 d hd)).2
      have hpart : urlLoop ⟨.reqFragmentStart, old, fa, u⟩ (p + 1) (c :: l ++ []) = _ :=
        urlLoop_part hc.1 rfl (by decide) hold hstay
      rw [List.append_nil] at hpart
      rw [urlLoop_skip _ hs rfl (by decide), hpart, hdrop]
      refine ⟨_, p + 1, rfl, rfl, rfl, ?_⟩
      rintro _ ⟨⟩
      exact ⟨[chr '#'], [], by simp, rfl⟩

/-- Where a fragment may begin. -/
theorem urlLoop_fragment? (run : UrlRun) (p : Nat) {fragment : Option (List UInt8)}
    (hs : fragment ≠ none → parseUrlChar run.s (chr '#') = .reqFragmentStart)
    (hold : run.oldUf ≠ some .fragment) (hl : ∀ cs ∈ fragment, ∀ c ∈ cs, isFragmentChar c) :
    ∃ r q, urlLoop run p (led (chr '#') fragment) = some r ∧ r.foundAt = run.foundAt ∧
      r.u = run.u.note .fragment q (UrlText.part? (fragment.map (·.dropWhile (· == chr '#')))) ∧
      Stands (UrlText.part? (fragment.map (·.dropWhile (· == chr '#'))))
        (led (chr '#') fragment) p q := by
  cases fragment with
  | none => exact ⟨_, 0, rfl, rfl, rfl, nofun⟩
  | some cs => exact urlLoop_fragment run p (hs nofun) hold (hl cs rfl)

/-- The query and the fragment. -/
theorem urlLoop_tail (run : UrlRun) (p : Nat) (hs : run.s = .reqServer ∨ run.s = .reqPath)
    (ht : t.Shaped) (hnone : run.s = .reqServer → t.path = none)
    (hquery : run.oldUf ≠ some .query) (hfragment : run.oldUf ≠ some .fragment) :
    ∃ r q q', urlLoop run p (led (chr '?') t.query ++ led (chr '#') t.fragment) =
        some r ∧ r.foundAt = run.foundAt ∧
      r.u = (run.u.note .query q (t.part .query)).note .fragment q' (t.part .fragment) ∧
      Stands (t.part .query) (led (chr '?') t.query ++ led (chr '#') t.fragment) p q ∧
      Stands (t.part .fragment) (led (chr '?') t.query ++ led (chr '#') t.fragment) p q' := by
  obtain ⟨s, old, fa, u⟩ := run
  dsimp only at hs hnone hquery hfragment ⊢
  have hchars := ht.fragment
  rw [UrlText.part, UrlText.part]
  cases hq : t.query with
  | none =>
    have hhash : t.fragment ≠ none → parseUrlChar s (chr '#') = .reqFragmentStart := by
      intro hne
      rcases hs with rfl | rfl
      · exact absurd (ht.fragment_of_none (hnone rfl) hq) hne
      · decide
    obtain ⟨r, q', hr, hfa, hu, hstands⟩ := urlLoop_fragment? ⟨s, old, fa, u⟩ p hhash
      hfragment hchars
    exact ⟨r, 0, q', hr, hfa, hu, nofun, hstands⟩
  | some cs =>
    have hmark : parseUrlChar s (chr '?') = .reqQueryStringStart := by
      rcases hs with rfl | rfl
      · decide
      · decide
    have hqueryChars := ht.query cs hq
    have hskip : urlLoop ⟨s, old, fa, u⟩ p
        (led (chr '?') (some cs) ++ led (chr '#') t.fragment) =
          urlLoop ⟨.reqQueryStringStart, old, fa, u⟩ (p + 1) (cs ++ led (chr '#') t.fragment) :=
      urlLoop_skip _ hmark rfl (by decide)
    rw [hskip]
    cases cs with
    | nil =>
      obtain ⟨r, q', hr, hfa, hu, hstands⟩ := urlLoop_fragment?
        ⟨.reqQueryStringStart, old, fa, u⟩ (p + 1) (fun _ => rfl) hfragment hchars
      exact ⟨r, 0, q', hr, hfa, hu, nofun, hstands.append [chr '?']⟩
    | cons c cs =>
      rw [List.forall_mem_cons] at hqueryChars
      have hstay : ∀ d ∈ cs, parseUrlChar .reqQueryString d = .reqQueryString :=
        fun d hd => (parseUrlChar_query (hqueryChars.2 d hd)).2
      rw [urlLoop_part (parseUrlChar_query hqueryChars.1).1 rfl (by decide) hquery hstay]
      obtain ⟨r, q', hr, hfa, hu, hstands⟩ := urlLoop_fragment?
        ⟨.reqQueryString, some .query, fa, u.set .query (p + 1) (c :: cs).length⟩
        (p + 1 + (c :: cs).length) (fun _ => rfl) nofun hchars
      refine ⟨r, p + 1, q', hr, hfa, hu, ?_, ?_⟩
      · rintro _ ⟨⟩
        exact ⟨[chr '?'], led (chr '#') t.fragment, rfl, rfl⟩
      · have hlen : p + 1 + (c :: cs).length = p + (chr '?' :: c :: cs).length := by
          rw [List.length_cons (a := chr '?'), Nat.add_assoc, Nat.add_comm 1]
        rw [hlen] at hstands
        exact hstands.append _

/-! ## The loop over a whole URL -/

/-- The text behind the path. -/
def UrlText.tail (t : UrlText) : List UInt8 := led (chr '?') t.query ++ led (chr '#') t.fragment

/-- Where the server begins. -/
def UrlText.serverPos (t : UrlText) : Nat := t.server.elim 0 fun s => s.1.length + 3

/-- What the loop notes, with a query and a fragment that begin at `q` and `q'`. -/
def UrlText.noted (t : UrlText) (q q' : Nat) : Url :=
  (((({} : Url).note .schema 0 (t.part .schema)).note .host t.serverPos
    (t.server.map (·.2.text))).note .path t.front.length t.path).note .query q (t.part .query)
    |>.note .fragment q' (t.part .fragment)

theorem UrlText.text_eq : t.text = t.front ++ (t.path.getD [] ++ t.tail) := by
  simp only [UrlText.text, UrlText.tail, List.append_assoc]

/-- The path and what follows it. -/
theorem urlLoop_path (run : UrlRun) (p : Nat) (ht : t.Shaped)
    (hs : run.s = .reqServer ∧ t.server ≠ none ∨ run.s = .reqSpacesBeforeUrl ∧ t.server = none)
    (hold : run.oldUf = none ∨ run.oldUf = some .host) :
    ∃ r q q', urlLoop run p (t.path.getD [] ++ t.tail) = some r ∧ r.foundAt = run.foundAt ∧
      r.u = ((run.u.note .path p t.path).note .query q (t.part .query)).note .fragment q'
        (t.part .fragment) ∧
      Stands (t.part .query) (t.path.getD [] ++ t.tail) p q ∧
      Stands (t.part .fragment) (t.path.getD [] ++ t.tail) p q' := by
  obtain ⟨s, old, fa, u⟩ := run
  dsimp only at hs hold ⊢
  have hne : ∀ uf, uf ≠ UrlPart.host → old ≠ some uf := by
    rcases hold with rfl | rfl
    · exact fun _ _ => nofun
    · exact fun uf huf heq => huf (Option.some.inj heq).symm
  cases hpath : t.path with
  | none =>
    have hserver : s = .reqServer := by
      rcases hs with ⟨rfl, -⟩ | ⟨-, hnone⟩
      · rfl
      · exact absurd hpath (ht.path_of_none hnone)
    exact urlLoop_tail ⟨s, old, fa, u⟩ p (.inl hserver) ht (fun _ => hpath) (hne _ nofun) (hne _ nofun)
  | some cs =>
    obtain ⟨c, cs, rfl, hc, hcs⟩ := ht.path _ hpath
    have hfirst : parseUrlChar s c = .reqPath := by
      rcases hc with rfl | ⟨rfl, hnone⟩
      · rcases hs with ⟨rfl, -⟩ | ⟨rfl, -⟩
        · decide
        · decide
      · rcases hs with ⟨-, hsome⟩ | ⟨rfl, -⟩
        · exact absurd hnone hsome
        · decide
    rw [Option.getD_some, urlLoop_part hfirst rfl (by decide) (hne _ nofun)
      fun d hd => parseUrlChar_path (hcs d hd)]
    obtain ⟨r, q, q', hr, hfa, hu, hquery, hfragment⟩ := urlLoop_tail
      ⟨.reqPath, some .path, fa, u.set .path p (c :: cs).length⟩ (p + (c :: cs).length) (.inr rfl) ht
      nofun nofun nofun
    exact ⟨r, q, q', hr, hfa, hu, hquery.append _, hfragment.append _⟩

/-- The machine of URLs runs over a well-formed text and notes its parts. -/
theorem urlLoop_text (ht : t.Shaped) :
    ∃ r q q', urlLoop { s := .reqSpacesBeforeUrl } 0 t.text = some r ∧
      r.foundAt = (t.server.bind (·.2.user)).isSome ∧ r.u = t.noted q q' ∧
      Stands (t.part .query) t.text 0 q ∧ Stands (t.part .fragment) t.text 0 q' := by
  rw [UrlText.text_eq]
  cases hserver : t.server with
  | none =>
    have hfront : t.front = [] := by rw [UrlText.front, hserver]; rfl
    obtain ⟨r, q, q', hr, hfa, hu, hstands⟩ := urlLoop_path
      { s := .reqSpacesBeforeUrl } 0 ht (.inr ⟨rfl, hserver⟩) (.inl rfl)
    rw [hfront]
    refine ⟨r, q, q', hr, hfa, ?_, hstands⟩
    rw [hu, UrlText.noted, UrlText.part, hserver, hfront]
    rfl
  | some server =>
    obtain ⟨schema, a⟩ := server
    obtain ⟨hne, halpha, ha⟩ := ht.server _ hserver
    obtain ⟨c, l, rfl⟩ := List.exists_cons_of_ne_nil hne
    rw [List.forall_mem_cons] at halpha
    have hfront : t.front = c :: l ++ (chr ':' :: chr '/' :: chr '/' :: a.text) := by
      rw [UrlText.front, hserver]
      exact (List.append_assoc ..).trans rfl
    have hlen : t.front.length = 0 + (c :: l).length + 1 + 1 + 1 + a.text.length := by
      rw [hfront, List.length_append]
      simp only [List.length_cons]
      omega
    obtain ⟨r, q, q', hr, hfa, hu, hquery, hfragment⟩ := urlLoop_path
      ⟨.reqServer, some .host, a.user.isSome,
        (({} : Url).note .schema 0 (some (c :: l))).note .host ((c :: l).length + 3) (some a.text)⟩
      t.front.length ht (.inl ⟨rfl, hserver ▸ nofun⟩) (.inr rfl)
    refine ⟨r, q, q', ?_, hfa, ?_, ?_, ?_⟩
    · have hstay : ∀ d ∈ l, parseUrlChar .reqSchema d = .reqSchema :=
        fun d hd => (parseUrlChar_schema (halpha.2 d hd)).2
      have hold : (none : Option UrlPart) ≠ some .schema := nofun
      have hhost : some UrlPart.schema ≠ some .host := by decide
      have hsv := server_text ha
      have halive : a.text.foldl parseUrlChar .reqServerStart ≠ .dead := hsv.2.1 ▸ nofun
      have hpos : 0 + (c :: l).length + 1 + 1 + 1 = (c :: l).length + 3 := by omega
      rw [hlen] at hr
      rw [hfront, List.append_assoc, urlLoop_part (parseUrlChar_schema halpha.1).1 rfl (by decide)
        hold hstay, List.cons_append,
        urlLoop_skip .reqSchemaSlash (by decide) rfl (by decide), List.cons_append,
        urlLoop_skip .reqSchemaSlashSlash (by decide) rfl (by decide), List.cons_append,
        urlLoop_skip .reqServerStart (by decide) rfl (by decide),
        urlLoop_server hhost (text_ne_nil ha) hsv.1 halive, hsv.2.1, hsv.2.2, hpos, ← hr, hpos]
      rfl
    · rw [hu, UrlText.noted, UrlText.part, UrlText.serverPos, hserver]
      rfl
    · exact Stands.append _ (by rwa [Nat.zero_add])
    · exact Stands.append _ (by rwa [Nat.zero_add])

end SNet.Http.Parser
