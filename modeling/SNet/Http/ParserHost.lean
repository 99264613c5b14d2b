import SNet.Http.ParserUrlFields
import SNet.Library.Scan

/-!
# Reading a server

`http_parse_host` reads a text to its end if and only if it is the text of a server
(`exists_server`), and notes its parts (`hostLoop_text`).
-/

namespace SNet.Http.Parser

variable {u : Url} {uf : UrlPart} {p q n : Nat} {l rest : List UInt8} {s s' : HostState}
  {c : UInt8} {a : Server} {h : Host} {part : Option (List UInt8)}

/-! ## The loop -/

/-- A delimiter, or a character of no part. -/
theorem hostLoop_cons (s' : HostState) (hs : parseHostChar s c = s') (hne : s' ≠ .dead) :
    hostLoop s u p (c :: rest) = hostLoop s' (noteHost s s' p u) (p + 1) rest := by
  rw [hostLoop, hs, if_neg hne]

/-- Characters that keep a state in which a part grows. -/
theorem hostLoop_stay (hne : s ≠ .dead) (hgrow : ∀ p u, noteHost s s p u = u.grow uf)
    (hl : ∀ c ∈ l, parseHostChar s c = s) :
    hostLoop s (u.set uf q n) p (l ++ rest) =
      hostLoop s (u.set uf q (n + l.length)) (p + l.length) rest := by
  induction l generalizing n p with
  | nil => rfl
  | cons c l ih =>
    rw [List.forall_mem_cons] at hl
    rw [List.cons_append, hostLoop_cons _ hl.1 hne, hgrow, Url.grow_set, ih hl.2, List.length_cons,
      Nat.add_right_comm p, Nat.add_right_comm n, Nat.add_assoc p, Nat.add_assoc n]

/-- A part all of whose characters but the first one keep a state in which it grows. -/
theorem hostLoop_part (hs : parseHostChar s c = s') (hne : s' ≠ .dead)
    (hset : noteHost s s' p u = u.set uf p 1) (hgrow : ∀ p u, noteHost s' s' p u = u.grow uf)
    (hl : ∀ c ∈ l, parseHostChar s' c = s') :
    hostLoop s u p (c :: l ++ rest) =
      hostLoop s' (u.set uf p (c :: l).length) (p + (c :: l).length) rest := by
  rw [List.cons_append, hostLoop_cons _ hs hne, hset, hostLoop_stay hne hgrow hl, List.length_cons,
    Nat.add_right_comm p, Nat.add_comm 1, Nat.add_assoc p]

/-- The field of the host was set with no length, so it begins with its first character. -/
theorem restart_eq_set {o : Nat} (hu : u.field .host = some ⟨o, 0⟩) :
    noteHost.restart u p = u.set .host p 1 := by
  rw [noteHost.restart, hu]
  rfl

/-- The loop ends in the state that the scan of the text ends in, which is not dead. -/
theorem foldl_of_hostLoop {u' : Url} (hs : s ≠ .dead) (h : hostLoop s u p l = some (s', u')) :
    l.foldl parseHostChar s = s' ∧ s' ≠ .dead := by
  induction l generalizing s u p with
  | nil =>
    cases h
    exact ⟨rfl, hs⟩
  | cons c l ih =>
    rw [hostLoop] at h
    by_cases hdead : parseHostChar s c = .dead
    · rw [if_pos hdead] at h
      cases h
    · rw [if_neg hdead] at h
      exact ih hdead h

/-! ## Characters -/

/-- The characters of each part, which lead into its state and keep it. -/
theorem parseHostChar_keeps (c : UInt8) :
    (isUserinfoChar c → parseHostChar .userinfoStart c = .userinfo ∧
      parseHostChar .userinfo c = .userinfo) ∧
    (isHostChar c → parseHostChar .hostStart c = .host ∧ parseHostChar .host c = .host) ∧
    (Host.isAddressChar c → parseHostChar .hostV6Start c = .hostV6 ∧
      parseHostChar .hostV6 c = .hostV6) ∧
    (Host.isZoneChar c → parseHostChar .hostV6ZoneStart c = .hostV6Zone ∧
      parseHostChar .hostV6Zone c = .hostV6Zone) ∧
    (isNumber c → parseHostChar .hostPortStart c = .hostPort ∧
      parseHostChar .hostPort c = .hostPort) := by
  revert c
  exact forall_byte (by decide +kernel)

theorem parseHostChar_userinfo (h : isUserinfoChar c) :
    parseHostChar .userinfoStart c = .userinfo ∧ parseHostChar .userinfo c = .userinfo :=
  (parseHostChar_keeps c).1 h

theorem parseHostChar_name (h : isHostChar c) :
    parseHostChar .hostStart c = .host ∧ parseHostChar .host c = .host :=
  (parseHostChar_keeps c).2.1 h

theorem parseHostChar_address (h : Host.isAddressChar c) :
    parseHostChar .hostV6Start c = .hostV6 ∧ parseHostChar .hostV6 c = .hostV6 :=
  (parseHostChar_keeps c).2.2.1 h

theorem parseHostChar_zone (h : Host.isZoneChar c) :
    parseHostChar .hostV6ZoneStart c = .hostV6Zone ∧ parseHostChar .hostV6Zone c = .hostV6Zone :=
  (parseHostChar_keeps c).2.2.2.1 h

theorem parseHostChar_port (h : isNumber c) :
    parseHostChar .hostPortStart c = .hostPort ∧ parseHostChar .hostPort c = .hostPort :=
  (parseHostChar_keeps c).2.2.2.2 h

/-! ## What is noted of a server -/

/-- The user. -/
theorem hostLoop_user {user : List UInt8} (hl : ∀ c ∈ user, isUserinfoChar c) :
    hostLoop .userinfoStart u p (user ++ [chr '@'] ++ rest) =
      hostLoop .hostStart (u.note .userinfo p (UrlText.part? (some user)))
        (p + (user ++ [chr '@']).length) rest := by
  rw [List.append_assoc]
  cases user with
  | nil => exact hostLoop_cons .hostStart (by decide) nofun
  | cons c user =>
    rw [List.forall_mem_cons] at hl
    have hstay : ∀ d ∈ user, parseHostChar .userinfo d = .userinfo :=
      fun d hd => (parseHostChar_userinfo (hl.2 d hd)).2
    rw [hostLoop_part (parseHostChar_userinfo hl.1).1 nofun rfl (fun _ _ => rfl) hstay]
    have hat : parseHostChar .userinfo (chr '@') = .hostStart := by decide
    rw [List.singleton_append, hostLoop_cons _ hat nofun, List.length_append]
    rfl

/-- The port. -/
theorem hostLoop_port (hs : parseHostChar s (chr ':') = .hostPortStart) (hend : s.isEnd)
    (hport : ∀ cs ∈ part, cs ≠ [] ∧ ∀ c ∈ cs, isNumber c) :
    ∃ s', hostLoop s u p (led (chr ':') part) = some (s', u.note .port (p + 1) part) ∧ s'.isEnd := by
  cases part with
  | none => exact ⟨s, rfl, hend⟩
  | some cs =>
    obtain ⟨hne, hcs⟩ := hport cs rfl
    obtain ⟨c, l, rfl⟩ := List.exists_cons_of_ne_nil hne
    rw [List.forall_mem_cons] at hcs
    have hstay : ∀ d ∈ l, parseHostChar .hostPort d = .hostPort :=
      fun d hd => (parseHostChar_port (hcs.2 d hd)).2
    have hdigits : hostLoop .hostPortStart u (p + 1) (c :: l ++ []) = _ :=
      hostLoop_part (parseHostChar_port hcs.1).1 nofun rfl (fun _ _ => rfl) hstay
    rw [List.append_nil] at hdigits
    refine ⟨.hostPort, ?_, rfl⟩
    rw [led, Option.elim_some, hostLoop_cons _ hs nofun]
    exact hdigits

/-- The host; the field shows what is between the brackets of an address. -/
theorem hostLoop_host {o : Nat} (rest : List UInt8) (hu : u.field .host = some ⟨o, 0⟩)
    (hwf : h.WellFormed) :
    ∃ s' q, hostLoop .hostStart u p (h.text ++ rest) =
        hostLoop s' (u.set .host q h.inner.length) (p + h.text.length) rest ∧
      parseHostChar s' (chr ':') = .hostPortStart ∧ s'.isEnd ∧ Stands (some h.inner) h.text p q := by
  cases h with
  | name cs =>
    obtain ⟨c, l, rfl⟩ := List.exists_cons_of_ne_nil hwf.1
    have hcs := List.forall_mem_cons.1 hwf.2
    have hstay : ∀ d ∈ l, parseHostChar .host d = .host :=
      fun d hd => (parseHostChar_name (hcs.2 d hd)).2
    refine ⟨.host, p, ?_, by decide, rfl, ?_⟩
    · exact hostLoop_part (parseHostChar_name hcs.1).1 nofun (restart_eq_set hu) (fun _ _ => rfl)
        hstay
    · rintro _ ⟨⟩
      exact ⟨[], [], (List.append_nil _).symm, rfl⟩
  | literal address zone =>
    obtain ⟨⟨hne, haddress⟩, hzone⟩ := hwf
    obtain ⟨c, l, rfl⟩ := List.exists_cons_of_ne_nil hne
    rw [List.forall_mem_cons] at haddress
    have hstay : ∀ d ∈ l, parseHostChar .hostV6 d = .hostV6 :=
      fun d hd => (parseHostChar_address (haddress.2 d hd)).2
    -- what is read behind the address, up to the bracket
    have hclose : hostLoop .hostV6 (u.set .host (p + 1) (c :: l).length) (p + 1 + (c :: l).length)
        (led (chr '%') zone ++ (chr ']' :: rest)) =
          hostLoop .hostV6End (u.set .host (p + 1) (c :: l ++ led (chr '%') zone).length)
            (p + 1 + (c :: l ++ led (chr '%') zone).length + 1) rest := by
      cases zone with
      | none =>
        rw [led, Option.elim_none, List.append_nil]
        exact hostLoop_cons .hostV6End (by decide) nofun
      | some z =>
        obtain ⟨hz, hzs⟩ := hzone z rfl
        obtain ⟨d, z, rfl⟩ := List.exists_cons_of_ne_nil hz
        rw [List.forall_mem_cons] at hzs
        have hmark : parseHostChar .hostV6 (chr '%') = .hostV6ZoneStart := by decide
        have hend : parseHostChar .hostV6Zone (chr ']') = .hostV6End := by decide
        rw [led, Option.elim_some, List.cons_append, hostLoop_cons _ hmark nofun, List.cons_append,
          hostLoop_cons _ (parseHostChar_zone hzs.1).1 nofun]
        -- the `%` and the first character of the zone grow the field as the others do
        have hgrow : ∀ q n, noteHost .hostV6ZoneStart .hostV6Zone q
            (noteHost .hostV6 .hostV6ZoneStart n (u.set .host (p + 1) (c :: l).length)) =
              u.set .host (p + 1) ((c :: l).length + 1 + 1) := by
          intro q n
          rw [noteHost, noteHost, Url.grow_set, Url.grow_set]
        have hrest : ∀ e ∈ z, parseHostChar .hostV6Zone e = .hostV6Zone :=
          fun e he => (parseHostChar_zone (hzs.2 e he)).2
        have hne : HostState.hostV6Zone ≠ .dead := nofun
        have hclosed : ∀ q u, noteHost .hostV6Zone .hostV6End q u = u := fun _ _ => rfl
        rw [hgrow, hostLoop_stay hne (fun _ _ => rfl) hrest, hostLoop_cons _ hend nofun, hclosed]
        simp only [List.length_append, List.length_cons]
        congr 2 <;> omega
    refine ⟨.hostV6End, p + 1, ?_, by decide, rfl, ?_⟩
    · have hopen : parseHostChar .hostStart (chr '[') = .hostV6Start := by decide
      have hopened : ∀ q u, noteHost .hostStart .hostV6Start q u = u := fun _ _ => rfl
      rw [Host.text, List.cons_append, List.append_assoc, List.append_assoc, List.singleton_append,
        hostLoop_cons _ hopen nofun, hopened,
        hostLoop_part (parseHostChar_address haddress.1).1 nofun (restart_eq_set hu) (fun _ _ => rfl)
          hstay]
      refine hclose.trans ?_
      have hlen : (chr '[' :: (c :: l ++ (led (chr '%') zone ++ [chr ']']))).length =
          1 + (c :: l ++ led (chr '%') zone).length + 1 := by
        simp only [List.length_cons, List.length_append, List.length_nil]
        omega
      rw [Host.inner, hlen, ← Nat.add_assoc, ← Nat.add_assoc]
    · rintro _ ⟨⟩
      exact ⟨[chr '['], [chr ']'], by simp [Host.text, Host.inner], rfl⟩

/-- A server is read to its end, and its parts are noted. -/
theorem hostLoop_text {o : Nat} (hu : u.field .host = some ⟨o, 0⟩) (ha : a.WellFormed) :
    ∃ s' q q', hostLoop (if a.user.isSome then .userinfoStart else .hostStart) u p a.text =
        some (s', ((u.note .userinfo p (UrlText.part? a.user)).set .host q a.host.inner.length).note
          .port q' a.port) ∧
      s'.isEnd ∧ Stands (UrlText.part? a.user) a.text p p ∧
      Stands (some a.host.inner) a.text p q ∧ Stands a.port a.text p q' := by
  have hfield : (u.note .userinfo p (UrlText.part? a.user)).field .host = some ⟨o, 0⟩ := by
    have hne : UrlPart.host ≠ .userinfo := nofun
    rw [Url.field_note_of_ne hne, hu]
  obtain ⟨s, q, hhost, hport, hend, hinner⟩ := hostLoop_host (p := p + a.front.length)
    (led (chr ':') a.port) hfield ha.host
  obtain ⟨s', hdigits, hend'⟩ := hostLoop_port
    (u := (u.note .userinfo p (UrlText.part? a.user)).set .host q a.host.inner.length)
    (p := p + a.front.length + a.host.text.length) hport hend ha.port
  have hfront : hostLoop (if a.user.isSome then .userinfoStart else .hostStart) u p a.text =
      hostLoop .hostStart (u.note .userinfo p (UrlText.part? a.user)) (p + a.front.length)
        a.behind := by
    rw [Server.text, Server.front]
    cases huser : a.user with
    | none => rfl
    | some user => exact hostLoop_user (ha.user user huser)
  refine ⟨s', q, p + a.front.length + a.host.text.length + 1, ?_, hend', ?_, ?_, ?_⟩
  · rw [hfront, Server.behind, hhost, hdigits]
  · intro cs hcs
    cases huser : a.user with
    | none =>
      rw [huser] at hcs
      cases hcs
    | some user =>
      rw [huser] at hcs
      obtain ⟨hcs, -⟩ := Option.filter_eq_some_iff.1 hcs
      cases hcs
      exact ⟨[], chr '@' :: a.behind, by simp [Server.text, Server.front, huser], rfl⟩
  · intro cs hcs
    obtain ⟨pre, post, htext, hq⟩ := hinner cs hcs
    refine ⟨a.front ++ pre, post ++ led (chr ':') a.port, ?_, ?_⟩
    · simp only [Server.text, Server.behind, htext, List.append_assoc]
    · rw [hq, List.length_append, Nat.add_assoc]
  · intro cs hcs
    refine ⟨a.front ++ a.host.text ++ [chr ':'], [], ?_, ?_⟩
    · rw [Server.text, Server.behind, Option.mem_def.1 hcs]
      simp [led]
    · simp only [List.length_append, List.length_singleton]
      omega

/-! ## What is read is a server -/

/-- The characters that a state lets through. -/
def HostState.lets (s : HostState) (c : UInt8) : Bool :=
  match s with
  | .dead => false
  | .userinfoStart | .userinfo => isUserinfoChar c || c == chr '@'
  | .hostStart => isHostChar c || c == chr '['
  | .hostV6Start => Host.isAddressChar c
  | .host => isHostChar c || c == chr ':'
  | .hostV6 => Host.isAddressChar c || c == chr ']' || c == chr '%'
  | .hostV6End => c == chr ':'
  | .hostV6ZoneStart => Host.isZoneChar c
  | .hostV6Zone => Host.isZoneChar c || c == chr ']'
  | .hostPortStart | .hostPort => isNumber c

theorem parseHostChar_dead (c : UInt8) : parseHostChar .dead c = .dead := rfl

theorem parseHostChar_eq_dead_iff : parseHostChar s c = .dead ↔ s.lets c = false := by
  refine forall_byte (P := fun c => parseHostChar s c = .dead ↔ s.lets c = false) ?_ c
  cases s <;> decide +kernel

/-- A scan that comes to an end that `http_parse_host` accepts. -/
structure Ends (s : HostState) (l : List UInt8) : Prop where
  ne_dead : l.foldl parseHostChar s ≠ .dead
  isEnd : (l.foldl parseHostChar s).isEnd

namespace Ends

theorem of_foldl {l' : List UInt8} (h : Ends s l)
    (heq : l.foldl parseHostChar s = l'.foldl parseHostChar s') : Ends s' l' :=
  ⟨heq ▸ h.ne_dead, heq ▸ h.isEnd⟩

theorem tail (h : Ends s (c :: l)) : Ends (parseHostChar s c) l := ⟨h.ne_dead, h.isEnd⟩

theorem lets (h : Ends s (c :: l)) : s.lets c := by
  have hne := Scan.step_ne_of_foldl_ne parseHostChar_dead h.ne_dead
  rwa [Ne, parseHostChar_eq_dead_iff, Bool.not_eq_false] at hne

/-- In a state where a server may not end a character follows. -/
theorem exists_cons (h : Ends s l) (hs : s.isEnd = false) :
    ∃ c l', l = c :: l' ∧ s.lets c ∧ Ends (parseHostChar s c) l' := by
  cases l with
  | nil => exact absurd h.isEnd (by rw [List.foldl_nil, hs]; nofun)
  | cons c l => exact ⟨c, l, rfl, h.lets, h.tail⟩

/-- The run of a class of characters that keeps the state, and what follows it. -/
theorem exists_run {P : UInt8 → Bool} (h : Ends s l) (hP : ∀ c, P c → parseHostChar s c = s) :
    ∃ run rest, l = run ++ rest ∧ (∀ c ∈ run, P c) ∧ Ends s rest ∧ ∀ c ∈ rest.head?, ¬ P c := by
  obtain ⟨run, rest, hl, hrun, hfold, hrest⟩ := Scan.exists_run hP l
  exact ⟨run, rest, hl, hrun, h.of_foldl hfold, hrest⟩

theorem exists_port (h : Ends s l) (hs : ∀ c ∈ l.head?, s.lets c → c = chr ':')
    (hport : parseHostChar s (chr ':') = .hostPortStart) :
    ∃ port, l = led (chr ':') port ∧ ∀ cs ∈ port, cs ≠ [] ∧ ∀ c ∈ cs, isNumber c := by
  cases l with
  | nil => exact ⟨none, rfl, nofun⟩
  | cons c l =>
    obtain rfl := hs c rfl h.lets
    have htail := h.tail
    rw [hport] at htail
    obtain ⟨d, l, rfl, hd, hdigits⟩ := htail.exists_cons rfl
    rw [(parseHostChar_port hd).1] at hdigits
    have hl : ∀ c ∈ l, isNumber c := Scan.forall_of_foldl_ne parseHostChar_dead
      (fun c hc => (parseHostChar_port hc).2)
      (fun c hc => parseHostChar_eq_dead_iff.2 (Bool.eq_false_iff.2 hc)) hdigits.ne_dead
    refine ⟨some (d :: l), rfl, ?_⟩
    rintro _ ⟨⟩
    exact ⟨List.cons_ne_nil d l, List.forall_mem_cons.2 ⟨hd, hl⟩⟩

/-- The rest of an address in brackets. -/
theorem exists_zone (h : Ends .hostV6 l) (hl : ∀ c ∈ l.head?, ¬ Host.isAddressChar c) :
    ∃ zone rest, l = led (chr '%') zone ++ chr ']' :: rest ∧ Ends .hostV6End rest ∧
      ∀ z ∈ zone, z ≠ [] ∧ ∀ c ∈ z, Host.isZoneChar c := by
  obtain ⟨c, l, rfl, hc, hrest⟩ := h.exists_cons rfl
  rw [HostState.lets, Bool.eq_false_iff.2 (hl c rfl), Bool.false_or, Bool.or_eq_true, beq_iff_eq,
    beq_iff_eq] at hc
  rcases hc with rfl | rfl
  · exact ⟨none, l, rfl, hrest, nofun⟩
  · obtain ⟨d, l, rfl, hd, hzone⟩ := exists_cons (s := .hostV6ZoneStart) hrest rfl
    rw [(parseHostChar_zone hd).1] at hzone
    obtain ⟨run, rest, rfl, hrun, hend, hhead⟩ :=
      hzone.exists_run (P := Host.isZoneChar) fun c hc => (parseHostChar_zone hc).2
    obtain ⟨e, rest, rfl, he, hend⟩ := hend.exists_cons rfl
    rw [HostState.lets, Bool.eq_false_iff.2 (hhead e rfl), Bool.false_or, beq_iff_eq] at he
    subst he
    refine ⟨some (d :: run), rest, rfl, hend, ?_⟩
    rintro _ ⟨⟩
    exact ⟨List.cons_ne_nil d run, List.forall_mem_cons.2 ⟨hd, hrun⟩⟩

theorem exists_host (h : Ends .hostStart l) :
    ∃ (host : Host) (port : Option (List UInt8)), l = host.text ++ led (chr ':') port ∧
      host.WellFormed ∧ ∀ cs ∈ port, cs ≠ [] ∧ ∀ c ∈ cs, isNumber c := by
  obtain ⟨c, l, rfl, hc, hrest⟩ := h.exists_cons rfl
  rw [HostState.lets, Bool.or_eq_true, beq_iff_eq] at hc
  rcases hc with hc | rfl
  · rw [(parseHostChar_name hc).1] at hrest
    obtain ⟨run, rest, rfl, hrun, hend, hhead⟩ :=
      hrest.exists_run (P := isHostChar) fun c hc => (parseHostChar_name hc).2
    obtain ⟨port, rfl, hport⟩ := hend.exists_port (fun d hd hlets => by
      rwa [HostState.lets, Bool.eq_false_iff.2 (hhead d hd), Bool.false_or, beq_iff_eq] at hlets)
      (by decide)
    exact ⟨.name (c :: run), port, rfl,
      ⟨List.cons_ne_nil c run, List.forall_mem_cons.2 ⟨hc, hrun⟩⟩, hport⟩
  · obtain ⟨d, l, rfl, hd, haddress⟩ := exists_cons (s := .hostV6Start) hrest rfl
    rw [(parseHostChar_address hd).1] at haddress
    obtain ⟨run, rest, rfl, hrun, hend, hhead⟩ :=
      haddress.exists_run (P := Host.isAddressChar) fun c hc => (parseHostChar_address hc).2
    obtain ⟨zone, rest, rfl, hclosed, hzone⟩ := hend.exists_zone hhead
    obtain ⟨port, rfl, hport⟩ := hclosed.exists_port
      (fun e _ hlets => by rwa [HostState.lets, beq_iff_eq] at hlets) (by decide)
    refine ⟨.literal (d :: run) zone, port, ?_,
      ⟨⟨List.cons_ne_nil d run, List.forall_mem_cons.2 ⟨hd, hrun⟩⟩, hzone⟩, hport⟩
    simp only [Host.text, List.cons_append, List.append_assoc, List.nil_append]

theorem exists_user (h : Ends .userinfoStart l) :
    ∃ user rest, l = user ++ chr '@' :: rest ∧ (∀ c ∈ user, isUserinfoChar c) ∧
      Ends .hostStart rest := by
  obtain ⟨c, l, rfl, hc, hrest⟩ := h.exists_cons rfl
  rw [HostState.lets, Bool.or_eq_true, beq_iff_eq] at hc
  rcases hc with hc | rfl
  · rw [(parseHostChar_userinfo hc).1] at hrest
    obtain ⟨run, rest, rfl, hrun, hend, hhead⟩ :=
      hrest.exists_run (P := isUserinfoChar) fun c hc => (parseHostChar_userinfo hc).2
    obtain ⟨d, rest, rfl, hd, hend⟩ := hend.exists_cons rfl
    rw [HostState.lets, Bool.eq_false_iff.2 (hhead d rfl), Bool.false_or, beq_iff_eq] at hd
    subst hd
    exact ⟨c :: run, rest, rfl, List.forall_mem_cons.2 ⟨hc, hrun⟩, hend⟩
  · exact ⟨[], l, rfl, nofun, hrest⟩

end Ends

/-- What `http_parse_host` reads to its end is the text of a server. -/
theorem exists_server {foundAt : Bool}
    (h : Ends (if foundAt then .userinfoStart else .hostStart) l) :
    ∃ a : Server, a.WellFormed ∧ a.text = l ∧ a.user.isSome = foundAt := by
  cases foundAt with
  | false =>
    obtain ⟨host, port, rfl, hhost, hport⟩ := h.exists_host
    exact ⟨⟨none, host, port⟩, ⟨nofun, hhost, hport⟩, rfl, rfl⟩
  | true =>
    obtain ⟨user, rest, rfl, huser, hrest⟩ := h.exists_user
    obtain ⟨host, port, rfl, hhost, hport⟩ := hrest.exists_host
    refine ⟨⟨some user, host, port⟩, ⟨?_, hhost, hport⟩, ?_, rfl⟩
    · rintro _ ⟨⟩
      exact huser
    · simp [Server.text, Server.front, Server.behind]

end SNet.Http.Parser
