import SNet.Utils.HeapTimer

/-!
# No timer is lost

`timer_loop` reads the front of the heap and pops it in two steps. A node that another thread inserts
in between and that expires before the one read is popped in its place: it is never handed over, and
the one read is handed over while it is still in the heap (`node_lost`). `noneLost_of_steps` says that
this is the only way in which nodes are lost or fired twice.
-/

namespace SNet.Utils

variable {s : HeapTimer} {a : TimerAction} {as : List TimerAction} {n m t : Nat}

/-! ## The property and its condition -/

inductive TimerEvent
  | inserted (n : Nat)
  /-- `pop()` removed a node after `top()` had returned `read`. -/
  | popped (removed : Option Nat) (read : Nat)
  /-- A node is given to `handle_timeout`; `inHeap` tells whether it is in the heap. -/
  | handed (n : Nat) (inHeap : Bool)
  | foundStopped (n : Nat)
  deriving DecidableEq, Repr

/-- What a step does with nodes. -/
def timerEvents (s : HeapTimer) : TimerAction → List TimerEvent
  | .insertStarted _ n | .insertRestarted _ n | .reinsert n => [.inserted n]
  | .pop n => [.popped s.heapData[0]? n]
  | .check n =>
    if (s.nodes n).stopped then [.foundStopped n] else [.handed n (decide (n ∈ s.heapData))]
  | .start .. | .publish .. | .stop _ | .restart .. | .store .. | .top _ | .handled ..
  | .elsewhere => []

/-- The timer with the events so far. -/
def recordedTimer : Machine (HeapTimer × List TimerEvent) TimerAction :=
  heapTimer.record fun s a evs => evs ++ timerEvents s a

/-- The node popped is the one read; each time that a node was inserted it is in the heap, or about
to be checked, or was handed over or found stopped; none is handed over while it is in the heap. -/
structure NoneLost (s : HeapTimer) (evs : List TimerEvent) : Prop where
  popped : ∀ removed read, .popped removed read ∈ evs → removed = some read
  accounted : ∀ n, evs.count (.inserted n) =
    s.heapData.toList.count n + (if s.loopPc = .popped n then 1 else 0) +
      (evs.count (.handed n false) + evs.count (.handed n true) + evs.count (.foundStopped n))
  exclusive : ∀ n inHeap, .handed n inHeap ∈ evs → inHeap = false

/-- `timer_loop` is between `top()` and `pop()`, and `n` expires before the node that was read. -/
def HeapTimer.overtakes (s : HeapTimer) (n : Nat) : Bool :=
  match s.loopPc with
  | .due m => s.before n m
  | _ => false

/-- No thread inserts a node that overtakes the one that was read. -/
def NoneOvertakes (s : HeapTimer) : TimerAction → Prop
  | .insertStarted _ n | .insertRestarted _ n => s.overtakes n = false
  | _ => True

instance decidableNoneOvertakes (s : HeapTimer) : ∀ a, Decidable (NoneOvertakes s a)
  | .insertStarted .. | .insertRestarted .. => inferInstanceAs (Decidable (_ = _))
  | .start .. | .publish .. | .stop _ | .restart .. | .store .. | .top _ | .pop _ | .check _
  | .handled .. | .reinsert _ | .elsewhere => inferInstanceAs (Decidable True)

/-! ## Where a node is -/

/-- `timer_loop` has the node out of the heap. -/
def LoopPc.Holds (n : Nat) : LoopPc → Prop
  | .popped m | .handling m | .reinserting m => n = m
  | .idle | .looping | .due _ => False

/-- The node was made and waits to be inserted. -/
def CallPc.Waits (n : Nat) : CallPc → Prop
  | .inserting m | .restarting m => n = m
  | .idle | .publishing _ | .storing _ => False

/-- Every node is in one place: in the heap, with `timer_loop` or with the thread that made it. -/
structure Placed (s : HeapTimer) : Prop where
  front : ∀ n, s.loopPc = .due n → s.heapData[0]? = some n
  once : ∀ n, s.heapData.toList.count n ≤ 1
  held : ∀ n, s.loopPc.Holds n → n ∉ s.heapData
  fresh : ∀ t n, (s.calls t).Waits n → n ∉ s.heapData ∧ ¬ s.loopPc.Holds n ∧
    ∀ u, (s.calls u).Waits n → u = t
  created : ∀ n, n ∈ s.heapData ∨ s.loopPc.Holds n ∨ (∃ t, (s.calls t).Waits n) → n < s.created

theorem placed_init : Placed {} where
  front _ h := by cases h
  once _ := Nat.zero_le 1
  held _ h := h.elim
  fresh _ _ h := h.elim
  created n h := by
    rcases h with h | h | ⟨t, h⟩
    · exact absurd h (Array.not_mem_empty n)
    · exact h.elim
    · exact h.elim

/-! ## The heap -/

theorem count_insert :
    (s.insert n).heapData.toList.count m = s.heapData.toList.count m + if n = m then 1 else 0 := by
  rw [HeapTimer.insert, BinaryHeap.push_perm.count_eq, List.count_cons]
  simp

theorem mem_insert : m ∈ (s.insert n).heapData ↔ m = n ∨ m ∈ s.heapData := by
  rw [HeapTimer.insert, ← Array.mem_toList_iff, BinaryHeap.push_perm.mem_iff, List.mem_cons,
    Array.mem_toList_iff]

theorem front_insert (hfront : s.heapData[0]? = some m) (hbefore : s.before n m = false) :
    (s.insert n).heapData[0]? = some m := BinaryHeap.push_front hfront hbefore

theorem pop_perm_of_front (hfront : s.heapData[0]? = some n) :
    (n :: s.pop.heapData.toList).Perm s.heapData.toList := by
  have hpos : 0 < s.heapData.size := (Array.getElem?_eq_some_iff.1 hfront).1
  have hne : s.heapData.isEmpty = false := by
    rw [Array.isEmpty, decide_eq_false_iff_not]
    exact Nat.ne_of_gt hpos
  rw [HeapTimer.pop, hne]
  exact BinaryHeap.pop_perm hfront

/-! ## Steps -/

/-- A thread that waits after a change of one thread. -/
theorem waits_setCall {pc : CallPc} {u : Nat} (h : ((s.setCall t pc).calls u).Waits m) :
    u = t ∧ pc.Waits m ∨ u ≠ t ∧ (s.calls u).Waits m := by
  rw [HeapTimer.setCall] at h
  dsimp only at h
  rw [Function.update_apply] at h
  split at h
  · next hut => exact .inl ⟨hut, h⟩
  · next hut => exact .inr ⟨hut, h⟩

/-- A step that leaves the heap alone and takes no node. -/
theorem Placed.mono {s' : HeapTimer} (h : Placed s) (hheap : s'.heapData = s.heapData)
    (hcreated : s'.created = s.created)
    (hdue : ∀ n, s'.loopPc = .due n → s.heapData[0]? = some n)
    (hholds : ∀ n, s'.loopPc.Holds n → s.loopPc.Holds n)
    (hwaits : ∀ t n, (s'.calls t).Waits n → (s.calls t).Waits n) : Placed s' where
  front n hn := by
    rw [hheap]
    exact hdue n hn
  once n := by
    rw [hheap]
    exact h.once n
  held n hn := by
    rw [hheap]
    exact h.held n (hholds n hn)
  fresh t n hn := by
    obtain ⟨hmem, hloop, huniq⟩ := h.fresh t n (hwaits t n hn)
    rw [hheap]
    exact ⟨hmem, fun hl => hloop (hholds n hl), fun u hu => huniq u (hwaits u n hu)⟩
  created n hn := by
    rw [hheap] at hn
    rw [hcreated]
    refine h.created n (hn.imp_right fun hn => hn.imp (hholds n) ?_)
    exact fun ⟨t, ht⟩ => ⟨t, hwaits t n ht⟩

/-- A node that is made waits. -/
theorem Placed.made {s' : HeapTimer} (h : Placed s) (pc : CallPc) (hheap : s'.heapData = s.heapData)
    (hcreated : s'.created = s.created + 1) (hloop : s'.loopPc = s.loopPc)
    (hcalls : s'.calls = (s.setCall t pc).calls) (hpc : ∀ n, pc.Waits n ↔ n = s.created) :
    Placed s' := by
  have hwaits : ∀ u n, (s'.calls u).Waits n → u = t ∧ n = s.created ∨ (s.calls u).Waits n := by
    intro u n hn
    rw [hcalls] at hn
    exact (waits_setCall hn).imp (fun h => ⟨h.1, (hpc n).1 h.2⟩) fun h => h.2
  have hnew : ¬ (s.created ∈ s.heapData ∨ s.loopPc.Holds s.created ∨
      ∃ t, (s.calls t).Waits s.created) := fun hn => Nat.lt_irrefl _ (h.created _ hn)
  simp only [not_or, not_exists] at hnew
  refine ⟨?_, ?_, ?_, ?_, ?_⟩
  · rw [hheap, hloop]
    exact h.front
  · rw [hheap]
    exact h.once
  · rw [hheap, hloop]
    exact h.held
  · intro u n hn
    rw [hheap, hloop]
    rcases hwaits u n hn with ⟨rfl, rfl⟩ | hold
    · refine ⟨hnew.1, hnew.2.1, fun v hv => ?_⟩
      rcases hwaits v _ hv with ⟨hvt, -⟩ | hv
      · exact hvt
      · exact absurd hv (hnew.2.2 v)
    · obtain ⟨hmem, hheld, huniq⟩ := h.fresh u n hold
      refine ⟨hmem, hheld, fun v hv => ?_⟩
      rcases hwaits v n hv with ⟨-, rfl⟩ | hv
      · exact absurd hold (hnew.2.2 u)
      · exact huniq v hv
  · intro n hn
    rw [hheap, hloop] at hn
    rw [hcreated]
    rcases hn with hn | hn | ⟨u, hn⟩
    · exact Nat.lt_succ_of_lt (h.created n (.inl hn))
    · exact Nat.lt_succ_of_lt (h.created n (.inr (.inl hn)))
    · rcases hwaits u n hn with ⟨-, rfl⟩ | hold
      · exact Nat.lt_succ_self _
      · exact Nat.lt_succ_of_lt (h.created n (.inr (.inr ⟨u, hold⟩)))

theorem Placed.once_insert (h : Placed s) (hmem : n ∉ s.heapData) (m : Nat) :
    (s.insert n).heapData.toList.count m ≤ 1 := by
  rw [count_insert]
  split
  · next heq =>
    subst heq
    rw [List.count_eq_zero.2 (fun hn => hmem (Array.mem_toList_iff.1 hn))]
  · exact h.once m

/-- A thread inserts the node that it made. -/
theorem Placed.insertMade {pc : CallPc} (h : Placed s) (ht : (s.calls t).Waits n)
    (hpc : ∀ m, ¬ pc.Waits m) (hlater : s.overtakes n = false) :
    Placed ((s.insert n).setCall t pc) := by
  obtain ⟨hmem, hheld, huniq⟩ := h.fresh t n ht
  have hwaits : ∀ u m, (((s.insert n).setCall t pc).calls u).Waits m →
      u ≠ t ∧ (s.calls u).Waits m := fun u m hm =>
    (waits_setCall hm).elim (fun h => absurd h.2 (hpc m)) id
  have hother : ∀ u m, (((s.insert n).setCall t pc).calls u).Waits m → m ≠ n := by
    rintro u m hm rfl
    exact (hwaits u m hm).1 (huniq u (hwaits u m hm).2)
  refine ⟨fun m hm => ?_, h.once_insert hmem, fun m hm hmem' => ?_, fun u m hm => ?_, fun m hm => ?_⟩
  · have hdue : s.loopPc = .due m := hm
    rw [HeapTimer.overtakes, hdue] at hlater
    exact front_insert (h.front m hdue) hlater
  · rcases mem_insert.1 hmem' with rfl | hold
    · exact hheld hm
    · exact h.held m hm hold
  · obtain ⟨hmem', hheld', huniq'⟩ := h.fresh u m (hwaits u m hm).2
    refine ⟨fun hin => ?_, hheld', fun v hv => huniq' v (hwaits v m hv).2⟩
    exact (mem_insert.1 hin).elim (hother u m hm) hmem'
  · rcases hm with hm | hm | ⟨u, hm⟩
    · rcases mem_insert.1 hm with rfl | hold
      · exact h.created m (.inr (.inr ⟨t, ht⟩))
      · exact h.created m (.inl hold)
    · exact h.created m (.inr (.inl hm))
    · exact h.created m (.inr (.inr ⟨u, (hwaits u m hm).2⟩))

/-- `timer_loop` inserts the node that it has. -/
theorem Placed.reinsert (h : Placed s) (hpc : s.loopPc = .reinserting n) :
    Placed { s.insert n with loopPc := .looping } := by
  have hn : s.loopPc.Holds n := by rw [hpc]; rfl
  have hmem := h.held n hn
  have hother : ∀ u m, (s.calls u).Waits m → m ≠ n := by
    rintro u m hm rfl
    exact (h.fresh u m hm).2.1 hn
  refine ⟨fun m hm => (by cases hm), h.once_insert hmem, fun m hm => hm.elim, fun u m hm => ?_,
    fun m hm => ?_⟩
  · obtain ⟨hmem', -, huniq⟩ := h.fresh u m hm
    exact ⟨fun hin => (mem_insert.1 hin).elim (hother u m hm) hmem', id, huniq⟩
  · rcases hm with hm | hm | hm
    · rcases mem_insert.1 hm with rfl | hold
      · exact h.created m (.inr (.inl hn))
      · exact h.created m (.inl hold)
    · exact hm.elim
    · exact h.created m (.inr (.inr hm))

/-- `pop()` removes the node that `top()` returned. -/
theorem Placed.pop (h : Placed s) (hpc : s.loopPc = .due n) :
    Placed { s.pop with loopPc := .popped n } := by
  have hperm := pop_perm_of_front (h.front n hpc)
  have hcount : ∀ m, s.pop.heapData.toList.count m + (if n = m then 1 else 0) =
      s.heapData.toList.count m := by
    intro m
    rw [← hperm.count_eq, List.count_cons]
    simp
  have hsub : ∀ m, m ∈ s.pop.heapData → m ∈ s.heapData := fun m hm =>
    Array.mem_toList_iff.1 (hperm.subset (.tail _ (Array.mem_toList_iff.2 hm)))
  have hin : n ∈ s.heapData := Array.mem_toList_iff.1 (hperm.subset (.head _))
  refine ⟨fun m hm => (by cases hm), fun m => ?_, fun m hm hmem => ?_, fun u m hm => ?_,
    fun m hm => ?_⟩
  · exact Nat.le_trans (Nat.le_of_add_right_le (Nat.le_of_eq (hcount m))) (h.once m)
  · cases hm
    have hone := hcount n
    have hle := h.once n
    rw [if_pos rfl] at hone
    have hpos : 0 < s.pop.heapData.toList.count n :=
      List.count_pos_iff.2 (Array.mem_toList_iff.2 hmem)
    omega
  · obtain ⟨hmem, -, huniq⟩ := h.fresh u m hm
    refine ⟨fun hm' => hmem (hsub m hm'), ?_, huniq⟩
    rintro rfl
    exact hmem hin
  · rcases hm with hm | hm | hm
    · exact h.created m (.inl (hsub m hm))
    · cases hm
      exact h.created n (.inl hin)
    · exact h.created m (.inr (.inr hm))

/-- **Every node stays in one place.** -/
theorem Placed.step (h : Placed s) (ha : heapTimer.enabled s a) (hlater : NoneOvertakes s a) :
    Placed (heapTimer.next s a) := by
  have hcall : ∀ {t u m pc}, (∀ m, ¬ CallPc.Waits m pc) →
      (((s.setCall t pc).calls u).Waits m → (s.calls u).Waits m) := fun hpc hm =>
    (waits_setCall hm).elim (fun h => absurd h.2 (hpc _)) fun h => h.2
  cases a with
  | start t now interval loop =>
    exact h.made (.inserting s.created) rfl rfl rfl rfl fun n => Iff.rfl
  | insertStarted t n => exact h.insertMade (ha ▸ rfl) (fun _ => id) hlater
  | publish t n => exact h.mono rfl rfl h.front (fun _ => id) fun u m => hcall fun _ => id
  | stop timerId =>
    simp only [heapTimer, HeapTimer.stopTimer]
    cases s.timerNodes timerId with
    | none => exact h
    | some n => exact h.mono rfl rfl h.front (fun _ => id) fun _ _ => id
  | restart t now timerId interval =>
    simp only [heapTimer]
    cases s.timerNodes timerId with
    | none => exact h
    | some m => exact h.made (.restarting s.created) rfl rfl rfl rfl fun n => Iff.rfl
  | insertRestarted t n => exact h.insertMade (ha ▸ rfl) (fun _ => id) hlater
  | store t n => exact h.mono rfl rfl h.front (fun _ => id) fun u m => hcall fun _ => id
  | top now =>
    simp only [heapTimer]
    cases hfront : s.heapData[0]? with
    | none => exact h.mono rfl rfl (fun n hn => (by cases hn)) (fun _ => False.elim) fun _ _ => id
    | some n =>
      dsimp only
      split
      · refine h.mono rfl rfl (fun m hm => ?_) (fun _ => False.elim) fun _ _ => id
        cases hm
        exact hfront
      · exact h.mono rfl rfl (fun n hn => (by cases hn)) (fun _ => False.elim) fun _ _ => id
  | pop n => exact h.pop ha
  | check n =>
    have hpc : s.loopPc = .popped n := ha
    simp only [heapTimer]
    split
    · exact h.mono rfl rfl (fun n hn => (by cases hn)) (fun _ => False.elim) fun _ _ => id
    · exact h.mono rfl rfl (fun n hn => (by cases hn)) (fun m hm => hpc ▸ hm) fun _ _ => id
  | handled n rst now =>
    have hpc : s.loopPc = .handling n := ha.1
    cases rst with
    | true =>
      simp only [heapTimer]
      split
      · exact h.mono rfl rfl (fun n hn => (by cases hn)) (fun m hm => hpc ▸ hm) fun _ _ => id
      · exact h.mono rfl rfl (fun n hn => (by cases hn)) (fun _ => False.elim) fun _ _ => id
    | false => exact h.mono rfl rfl (fun n hn => (by cases hn)) (fun _ => False.elim) fun _ _ => id
  | reinsert n => exact h.reinsert ha
  | elsewhere => exact h.mono rfl rfl h.front (fun _ => id) fun _ _ => id

/-! ## Runs -/

variable {evs : List TimerEvent}

theorem noneLost_init : NoneLost {} [] where
  popped _ _ h := by cases h
  accounted _ := rfl
  exclusive _ _ h := by cases h

/-- A step that pops and inserts nothing. -/
theorem NoneLost.mono {s' : HeapTimer} (h : NoneLost s evs) (hheap : s'.heapData = s.heapData)
    (hpc : ∀ n, s'.loopPc = .popped n ↔ s.loopPc = .popped n) : NoneLost s' evs where
  popped := h.popped
  accounted n := by
    rw [h.accounted n, hheap]
    simp only [hpc n]
  exclusive := h.exclusive

/-- An insertion is counted. -/
theorem NoneLost.insert {s' : HeapTimer} (h : NoneLost s evs)
    (hheap : s'.heapData = (s.insert n).heapData)
    (hpc : ∀ n, s'.loopPc = .popped n ↔ s.loopPc = .popped n) :
    NoneLost s' (evs ++ [.inserted n]) where
  popped removed read hmem := h.popped removed read (by simpa using hmem)
  accounted m := by
    have hold := h.accounted m
    rw [hheap, count_insert]
    simp only [List.count_append, List.count_singleton, hpc m, beq_iff_eq,
      TimerEvent.inserted.injEq, reduceCtorEq, if_false]
    omega
  exclusive m inHeap hmem := h.exclusive m inHeap (by simpa using hmem)

theorem NoneLost.pop (h : NoneLost s evs) (hp : Placed s) (hpc : s.loopPc = .due n) :
    NoneLost { s.pop with loopPc := .popped n } (evs ++ [.popped s.heapData[0]? n]) where
  popped removed read hmem := by
    rcases List.mem_append.1 hmem with hold | hnew
    · exact h.popped removed read hold
    · cases List.mem_singleton.1 hnew
      exact hp.front n hpc
  accounted m := by
    have hold := h.accounted m
    have hperm := (pop_perm_of_front (hp.front n hpc)).count_eq m
    rw [List.count_cons] at hperm
    rw [hpc] at hold
    simp only [List.count_append, List.count_singleton, beq_iff_eq, LoopPc.popped.injEq,
      reduceCtorEq, if_false] at hold hperm ⊢
    omega
  exclusive m inHeap hmem := h.exclusive m inHeap (by simpa using hmem)

/-- A node that is checked is handed over, out of the heap, or found stopped. -/
theorem NoneLost.check (h : NoneLost s evs) (hp : Placed s) (hpc : s.loopPc = .popped n) :
    NoneLost (heapTimer.next s (.check n)) (evs ++ timerEvents s (.check n)) := by
  have hmem : n ∉ s.heapData := hp.held n (hpc ▸ rfl)
  simp only [heapTimer, timerEvents, hmem, decide_false]
  split
  · refine ⟨fun removed read hm => h.popped removed read (by simpa using hm), fun m => ?_,
      fun m inHeap hm => h.exclusive m inHeap (by simpa using hm)⟩
    have hold := h.accounted m
    rw [hpc] at hold
    simp only [List.count_append, List.count_singleton, beq_iff_eq, LoopPc.popped.injEq,
      TimerEvent.foundStopped.injEq, reduceCtorEq, if_false] at hold ⊢
    omega
  · refine ⟨fun removed read hm => h.popped removed read (by simpa using hm), fun m => ?_,
      fun m inHeap hm => ?_⟩
    · have hold := h.accounted m
      rw [hpc] at hold
      simp only [List.count_append, List.count_singleton, beq_iff_eq, LoopPc.popped.injEq,
        TimerEvent.handed.injEq, reduceCtorEq, Bool.false_eq_true, and_true, and_false, if_false]
        at hold ⊢
      omega
    · rcases List.mem_append.1 hm with hold | hnew
      · exact h.exclusive m inHeap hold
      · cases List.mem_singleton.1 hnew
        rfl

/-- **Every step** keeps account of the nodes. -/
theorem NoneLost.step (h : NoneLost s evs) (hp : Placed s) (ha : heapTimer.enabled s a) :
    NoneLost (heapTimer.next s a) (evs ++ timerEvents s a) := by
  have hidle : ∀ {pc : LoopPc}, s.loopPc = pc → (∀ n, pc ≠ .popped n) → ∀ pc' : LoopPc,
      (∀ n, pc' ≠ .popped n) → ∀ n, pc' = .popped n ↔ s.loopPc = .popped n := by
    rintro _ rfl hpc pc' hpc' n
    exact iff_of_false (hpc' n) (hpc n)
  cases a with
  | insertStarted t n | insertRestarted t n => exact h.insert rfl fun _ => Iff.rfl
  | pop n => exact h.pop hp ha
  | check n => exact h.check hp ha
  | reinsert n => exact h.insert rfl (hidle ha (fun _ => (by rintro ⟨⟩)) _ fun _ => (by rintro ⟨⟩))
  | start t now interval loop | publish t n | store t n | elsewhere =>
    rw [timerEvents, List.append_nil]
    exact h.mono rfl fun _ => Iff.rfl
  | stop timerId =>
    rw [timerEvents, List.append_nil]
    simp only [heapTimer, HeapTimer.stopTimer]
    cases s.timerNodes timerId with
    | none => exact h
    | some n => exact h.mono rfl fun _ => Iff.rfl
  | restart t now timerId interval =>
    rw [timerEvents, List.append_nil]
    simp only [heapTimer]
    cases s.timerNodes timerId with
    | none => exact h
    | some m => exact h.mono rfl fun _ => Iff.rfl
  | top now =>
    have hpc : ∀ n, s.loopPc ≠ .popped n := by
      intro n hn
      rcases ha with hidle | hlooping
      · cases hidle.symm.trans hn
      · cases hlooping.symm.trans hn
    rw [timerEvents, List.append_nil]
    simp only [heapTimer]
    cases s.heapData[0]? with
    | none => exact h.mono rfl (hidle rfl hpc _ fun _ => (by rintro ⟨⟩))
    | some n =>
      dsimp only
      split
      · exact h.mono rfl (hidle rfl hpc _ fun _ => (by rintro ⟨⟩))
      · exact h.mono rfl (hidle rfl hpc _ fun _ => (by rintro ⟨⟩))
  | handled n rst now =>
    have hpc : ∀ m, s.loopPc ≠ .popped m := by
      intro m hm
      cases ha.1.symm.trans hm
    rw [timerEvents, List.append_nil]
    cases rst with
    | true =>
      simp only [heapTimer]
      split
      · exact h.mono rfl (hidle rfl hpc _ fun _ => (by rintro ⟨⟩))
      · exact h.mono rfl (hidle rfl hpc _ fun _ => (by rintro ⟨⟩))
    | false => exact h.mono rfl (hidle rfl hpc _ fun _ => (by rintro ⟨⟩))

/-- **No timer is lost** in a run in which none overtakes the one that `timer_loop` has read. -/
theorem noneLost_of_steps (h : heapTimer.Runs {} as) (hlater : heapTimer.Steps NoneOvertakes {} as) :
    NoneLost (heapTimer.exec {} as) (recordedTimer.exec ({}, []) as).2 := by
  have hruns : recordedTimer.Runs ({}, []) as := h.record
  have hsteps : recordedTimer.Steps (fun t => NoneOvertakes t.1) ({}, []) as := hlater.record
  have hinv := hruns.invariant_of_steps (I := fun t => Placed t.1 ∧ NoneLost t.1 t.2)
    (fun t a ha hl ht => ⟨ht.1.step ha hl, ht.2.step ht.1 ha⟩) hsteps
    ⟨placed_init, noneLost_init⟩
  rw [recordedTimer, Machine.exec_record_fst] at hinv
  exact hinv.2

/-- A one-shot timer is started and fires, while another thread starts one that expires later. -/
def fireOnce : List TimerAction :=
  [.start 0 0 5 false, .insertStarted 0 0, .publish 0 0, .start 0 2 9 true, .top 7,
    .insertStarted 0 1, .pop 0, .check 0, .publish 0 1, .handled 0 false 8, .top 8]

theorem fireOnce_noneLost :
    NoneLost (heapTimer.exec {} fireOnce) (recordedTimer.exec ({}, []) fireOnce).2 :=
  noneLost_of_steps (by decide) (by decide)

/-- Between `top()` and `pop()` a timer is inserted that expires before the one that was read. -/
def overtaking : List TimerAction :=
  [.start 0 0 5 false, .insertStarted 0 0, .publish 0 0, .start 0 0 3 false, .top 7,
    .insertStarted 0 1, .pop 0]

theorem node_lost : ¬ ∀ as, heapTimer.Runs {} as →
    NoneLost (heapTimer.exec {} as) (recordedTimer.exec ({}, []) as).2 := by
  intro h
  have hpopped := (h overtaking (by decide)).popped (some 1) 0 (by decide)
  cases hpopped

end SNet.Utils
