import SNet.Library.Loop
import SNet.Utils.TimerSchedules

/-!
# Whether `timer_loop` returns

One call of `timer_loop` under a clock, with handlers that return and do not call the timer. The loop
reads the clock again in each round, so that timers which loop may be due again before the others are
done. With `k` of them it returns if fewer microseconds than the interval of each pass in any `2k - 1`
gaps between readings (`timerLoop_returns`), and it does not if as many pass (`not_returns_of_busy`).
-/

namespace SNet.Utils

/-- The interval that was requested for a node. -/
def HeapTimer.requested (t : HeapTimer) (n : Nat) : Nat := (t.nodes n).interval.toUInt32.toNat

/-- The node will be inserted again if its handler returns true. -/
def HeapTimer.loops (t : HeapTimer) (n : Nat) : Bool := (t.nodes n).loop && !(t.nodes n).stopped

/-- The readings of the clock in their order. -/
def NeverBack (clock : Nat → Int) : Prop := ∀ ⦃i j⦄, i ≤ j → clock i ≤ clock j

/-- One round of `timer_loop`, which has read `clock i` last; `rst i` is what a handler returns that
runs then. -/
def drain (A : TimerHeaps) (clock : Nat → Int) (rst : Nat → Bool) :
    Loop (TimerRun × Nat) (Option LoopEnd)
  | (s, i) =>
    match s.due with
    | none => .inr s.ending
    | some n =>
      let s' := (timerRun A).next s (.round (clock (i + 1)))
      if (s.timer.nodes n).stopped then .inl (s', i + 1)
      else if s.timer.reinserts n (rst i) then
        .inl ((timerRun A).next s' (.handled (rst i) (clock (i + 1)) (clock (i + 2))), i + 2)
      else .inl ((timerRun A).next s' (.handled (rst i) (clock (i + 1)) (clock (i + 1))), i + 1)

/-- A call of `timer_loop` returns and does not call itself. -/
def Returns (A : TimerHeaps) (clock : Nat → Int) (rst : Nat → Bool) (s : TimerRun) : Prop :=
  ∃ r, (drain A clock rst).Ends ((timerRun A).next s (.timerLoop (clock 0)), 0)
    (some (.returns r))

/-! ## Requested intervals -/

theorem toInt_of_requested {t : HeapTimer} {n : Nat} (h : t.requested n < 2 ^ 31) :
    (t.nodes n).interval.toInt = t.requested n :=
  BitVec.toInt_eq_toNat_of_lt (by
    change 2 * t.requested n < 2 ^ 32
    omega)

/-! ## Rounds -/

variable {A : TimerHeaps} {clock : Nat → Int} {rst : Nat → Bool} {s : TimerRun} {n m i : Nat}

/-- The innermost `timer_loop` is at its condition and has read `clock i` last. -/
structure Tested (clock : Nat → Int) (s : TimerRun) (i : Nat) : Prop where
  ordered : Ordered s
  clock : s.clock = clock i
  testing : s.frames.head? = some (.testing s.clock s.timer.front)

namespace Tested

theorem due_eq (h : Tested clock s i) : s.due = s.timer.due (clock i) s.timer.front := by
  rw [TimerRun.due, List.eq_cons_of_mem_head? h.testing, h.clock]

theorem exists_due (h : Tested clock s i) (hm : m ∈ s.timer.heapData)
    (hle : s.timer.expire m ≤ clock i) : ∃ n, s.due = some n := by
  have hpos : 0 < s.timer.heapData.size := Array.size_pos_of_mem hm
  have hfront : s.timer.front = some s.timer.heapData[0] := Array.getElem?_eq_getElem hpos
  refine ⟨s.timer.heapData[0], ?_⟩
  rw [h.due_eq, hfront, HeapTimer.due, if_pos]
  exact Int.le_trans (h.ordered.inPlace.front_le hfront hm) hle

theorem ending (h : Tested clock s i) (hdue : s.due = none) :
    ∃ r, s.ending = some (.returns r) := by
  have hne : s.ending ≠ none := by
    rw [TimerRun.due, List.eq_cons_of_mem_head? h.testing] at hdue
    rw [TimerRun.ending, List.eq_cons_of_mem_head? h.testing]
    simp only at hdue ⊢
    rw [if_pos hdue]
    exact Option.some_ne_none _
  obtain ⟨e, he⟩ := Option.ne_none_iff_exists'.1 hne
  obtain ⟨-, ⟨-, rfl⟩ | ⟨n, -, -, rfl⟩⟩ := h.ordered.ending he
  · exact ⟨_, he⟩
  · exact ⟨_, he⟩

theorem next (ho : Ordered s) {fs : List LoopFrame}
    (hframes : s.frames = .testing s.clock s.timer.front :: fs) (hclock : s.clock = clock i) :
    Tested clock s i :=
  ⟨ho, hclock, by rw [hframes]; rfl⟩

end Tested

/-- What a round does in which `n` is due: `n` is inserted again, or it is gone. -/
structure Drained (clock : Nat → Int) (rst : Nat → Bool) (s : TimerRun) (i n : Nat) (s' : TimerRun)
    (i' : Nat) (rest : List Nat) : Prop where
  tested : Tested clock s' i'
  other : ∀ m, m ≠ n → s'.timer.nodes m = s.timer.nodes m
  perm : (n :: rest).Perm s.timer.heapData.toList
  cases : s.timer.loops n = true ∧ i' = i + 2 ∧ s'.timer.heapData.toList.Perm (n :: rest) ∧
      s'.timer.nodes n = { s.timer.nodes n with
        expireTime := clock (i + 1) + (s.timer.nodes n).interval.toInt } ∨
    (s.timer.loops n && rst i) = false ∧ i' = i + 1 ∧ s'.timer.heapData.toList = rest

theorem Tested.drain (A : TimerHeaps) (rst : Nat → Bool) (h : Tested clock s i)
    (hdue : s.due = some n) :
    ∃ s' i', drain A clock rst (s, i) = .inl (s', i') ∧
      Drained clock rst s i n s' i' (s.timer.popBy A).heapData.toList := by
  obtain ⟨hfront, -, hframes⟩ := h.ordered.due hdue
  have hperm := h.ordered.inPlace.popBy_perm (A := A) hfront
  have hround : (timerRun A).enabled s (.round (clock (i + 1))) := by
    change s.due ≠ none
    rw [hdue]
    exact Option.some_ne_none n
  have ho := h.ordered.step hround
  simp only [SNet.Utils.drain, hdue]
  by_cases hstopped : (s.timer.nodes n).stopped = true
  · refine ⟨_, _, if_pos hstopped, ?_⟩
    have hnext : (timerRun A).next s (.round (clock (i + 1))) =
        { timer := s.timer.popBy A,
          frames := .testing (clock (i + 1)) (s.timer.popBy A).front :: s.frames.tail,
          clock := clock (i + 1) } := by
      simp only [timerRun, hdue]
      exact if_pos hstopped
    rw [hnext] at ho ⊢
    refine ⟨.next ho rfl rfl, fun _ _ => rfl, hperm, .inr ⟨?_, rfl, rfl⟩⟩
    rw [HeapTimer.loops, hstopped, Bool.not_true, Bool.and_false, Bool.false_and]
  · have hnext : (timerRun A).next s (.round (clock (i + 1))) =
        { s with timer := s.timer.popBy A, frames := .handling n :: s.frames.tail } := by
      simp only [timerRun, hdue]
      exact if_neg hstopped
    rw [if_neg hstopped, hnext]
    rw [hnext] at ho
    -- the handler returns and `timer_loop` reads the clock
    have htested : ∀ now j, Tested clock
        { timer := (s.timer.popBy A).handleTimeout A n (rst i) now,
          frames := .testing (clock j) ((s.timer.popBy A).handleTimeout A n (rst i) now).front ::
            s.frames.tail,
          clock := clock j } j := fun now j =>
      .next (ho.step (a := .handled (rst i) now (clock j)) (Option.some_ne_none n)) rfl rfl
    have hother : ∀ now m, m ≠ n →
        ((s.timer.popBy A).handleTimeout A n (rst i) now).nodes m = s.timer.nodes m := by
      intro now m hm
      rw [HeapTimer.handleTimeout]
      split
      · exact Function.update_of_ne hm ..
      · split
        · rfl
        · exact Function.update_of_ne hm ..
    by_cases hre : s.timer.reinserts n (rst i) = true
    · refine ⟨_, _, if_pos hre, htested _ _, hother _, hperm, .inl ?_⟩
      have hheap := @handleTimeout_perm A (s.timer.popBy A) n (clock (i + 1)) (rst i) _ ho.inPlace hre
      obtain ⟨⟨-, hloop⟩, hrunning⟩ : (rst i = true ∧ (s.timer.nodes n).loop = true) ∧
          (s.timer.nodes n).stopped = false := by simpa [HeapTimer.reinserts] using hre
      refine ⟨?_, rfl, hheap, ?_⟩
      · rw [HeapTimer.loops, hloop, hrunning]
        rfl
      · change ((s.timer.popBy A).handleTimeout A n (rst i) _).nodes n = _
        rw [HeapTimer.handleTimeout]
        refine (congrArg (fun t : HeapTimer => t.nodes n) (if_pos hre)).trans ?_
        exact Function.update_self ..
    · refine ⟨_, _, if_neg hre, htested _ _, hother _, hperm, .inr ⟨?_, rfl, ?_⟩⟩
      · rw [HeapTimer.reinserts, Bool.and_assoc, Bool.and_comm] at hre
        exact Bool.eq_false_iff.2 hre
      · have hre' : ¬ (s.timer.popBy A).reinserts n (rst i) = true := hre
        change ((s.timer.popBy A).handleTimeout A n (rst i) _).heapData.toList = _
        rw [HeapTimer.handleTimeout, if_neg hre']
        split <;> rfl

namespace Drained

variable {s' : TimerRun} {i' : Nat} {rest : List Nat}

theorem not_mem (h : Drained clock rst s i n s' i' rest) (ho : Ordered s) : n ∉ rest :=
  (List.nodup_cons.1 (h.perm.nodup_iff.2 (List.nodup_append.1 ho.inPlace.once).1)).1

/-- The rest of the heap is as it was. -/
theorem nodes_eq (h : Drained clock rst s i n s' i' rest) (ho : Ordered s) :
    ∀ m ∈ rest, s'.timer.nodes m = s.timer.nodes m := fun m hm =>
  h.other m fun heq => h.not_mem ho (heq ▸ hm)

theorem loops_eq (h : Drained clock rst s i n s' i' rest) (ho : Ordered s) :
    ∀ m ∈ rest, s'.timer.loops m = s.timer.loops m := fun m hm => by
  rw [HeapTimer.loops, HeapTimer.loops, h.nodes_eq ho m hm]

end Drained

/-- How many timers in the heap loop. -/
def HeapTimer.looping (t : HeapTimer) : Nat := t.heapData.toList.countP t.loops

/-- The timer loops and is due when the clock shows `c`. -/
def HeapTimer.dueBy (t : HeapTimer) (c : Int) (n : Nat) : Bool :=
  t.loops n && decide (t.expire n ≤ c)

/-- What holds of the timers that loop in the heap. -/
def HeapTimer.EachLoop (t : HeapTimer) (P : Int → Prop) : Prop :=
  ∀ n ∈ t.heapData, t.loops n = true → P (t.nodes n).interval.toInt

namespace Drained

variable {s' : TimerRun} {i' : Nat} {rest : List Nat} {P : Int → Prop}

/-- Timers may only go. -/
theorem eachLoop (h : Drained clock rst s i n s' i' rest) (ho : Ordered s)
    (hP : s.timer.EachLoop P) : s'.timer.EachLoop P := by
  have hrest : ∀ m ∈ rest, s'.timer.loops m = true → P (s'.timer.nodes m).interval.toInt := by
    intro m hm hloops
    rw [h.loops_eq ho m hm] at hloops
    rw [h.nodes_eq ho m hm]
    exact hP m (Array.mem_toList_iff.1 (h.perm.subset (.tail n hm))) hloops
  intro m hm hloops
  rcases h.cases with ⟨hn, -, hheap, hnode⟩ | ⟨-, -, hheap⟩
  · rcases List.mem_cons.1 (hheap.subset (Array.mem_toList_iff.2 hm)) with rfl | hm
    · rw [hnode]
      exact hP m (Array.mem_toList_iff.1 (h.perm.subset (.head rest))) hn
    · exact hrest m hm hloops
  · exact hrest m (hheap ▸ Array.mem_toList_iff.2 hm) hloops

theorem dueBy_eq (h : Drained clock rst s i n s' i' rest) (ho : Ordered s) (c : Int) :
    ∀ m ∈ rest, s'.timer.dueBy c m = s.timer.dueBy c m := fun m hm => by
  rw [HeapTimer.dueBy, HeapTimer.dueBy, h.loops_eq ho m hm, HeapTimer.expire, h.nodes_eq ho m hm]
  rfl

/-- What is counted before a round. -/
theorem countP_eq (h : Drained clock rst s i n s' i' rest) (p : Nat → Bool) :
    s.timer.heapData.toList.countP p = rest.countP p + if p n then 1 else 0 := by
  rw [← h.perm.countP_eq p, List.countP_cons]

/-- What is counted after a round, by what holds of the rest as before. -/
theorem countP_next (h : Drained clock rst s i n s' i' rest) {p p' : Nat → Bool}
    (hrest : ∀ m ∈ rest, p' m = p m) :
    s.timer.loops n = true ∧ i' = i + 2 ∧
        s'.timer.heapData.size = s.timer.heapData.size ∧
        s'.timer.heapData.toList.countP p' = rest.countP p + (if p' n then 1 else 0) ∨
      (s.timer.loops n && rst i) = false ∧ i' = i + 1 ∧
        s'.timer.heapData.size + 1 = s.timer.heapData.size ∧
        s'.timer.heapData.toList.countP p' = rest.countP p := by
  have hcount : rest.countP p' = rest.countP p := List.countP_congr fun m hm => by rw [hrest m hm]
  have hsize : rest.length + 1 = s.timer.heapData.size := h.perm.length_eq
  rcases h.cases with ⟨hloops, hi, hheap, -⟩ | ⟨hgone, hi, hheap⟩
  · have hsize' : s'.timer.heapData.size = rest.length + 1 := hheap.length_eq
    refine .inl ⟨hloops, hi, hsize'.trans hsize, ?_⟩
    rw [hheap.countP_eq, List.countP_cons, hcount]
  · refine .inr ⟨hgone, hi, ?_, by rw [hheap, hcount]⟩
    rw [← hsize, ← hheap, Array.length_toList]

/-- A timer that is inserted again loops still, and expires an interval later. -/
theorem again (h : Drained clock rst s i n s' i' rest) (hi : i' = i + 2)
    (hloops : s.timer.loops n = true) :
    s'.timer.loops n = true ∧
      s'.timer.expire n = clock (i + 1) + (s.timer.nodes n).interval.toInt := by
  rcases h.cases with ⟨-, -, -, hnode⟩ | ⟨-, hi', -⟩
  · rw [HeapTimer.loops, HeapTimer.expire, hnode]
    exact ⟨hloops, rfl⟩
  · omega

end Drained

/-! ## Clocks that are slow enough -/

/-- At most `k` timers loop, and no more than `b` of them will be due `2b` readings later. -/
structure Draining (clock : Nat → Int) (k b : Nat) (t : TimerRun × Nat) : Prop where
  tested : Tested clock t.1 t.2
  slow : t.1.timer.EachLoop fun interval => ∀ j, clock (j + (2 * k - 1)) < clock j + interval
  few : t.1.timer.looping ≤ k
  budget : t.1.timer.heapData.toList.countP (t.1.timer.dueBy (clock (t.2 + 2 * b))) ≤ b

theorem looping_le_countP {c : Int} : s.timer.heapData.toList.countP (s.timer.dueBy c) ≤
    s.timer.looping :=
  List.countP_mono_left fun _ _ hm => (Bool.and_eq_true_iff.1 hm).1

/-- **A round** takes a timer out of the heap for good, or one out of the budget. -/
theorem Draining.round (A : TimerHeaps) (rst : Nat → Bool) {k b : Nat}
    (h : Draining clock k b (s, i)) (hclock : NeverBack clock) (hb : b ≤ k) (hdue : s.due = some n) :
    ∃ s' i', drain A clock rst (s, i) = .inl (s', i') ∧
      ((s'.timer.heapData.size + 1 = s.timer.heapData.size ∧ Draining clock k k (s', i')) ∨
        s'.timer.heapData.size = s.timer.heapData.size ∧
          ∃ b', b = b' + 1 ∧ Draining clock k b' (s', i')) := by
  obtain ⟨s', i', hround, hd⟩ := h.tested.drain A rst hdue
  refine ⟨s', i', hround, ?_⟩
  have ho := h.tested.ordered
  have hslow := hd.eachLoop ho h.slow
  have hfew : s.timer.looping ≤ k := h.few
  have hbudget : s.timer.heapData.toList.countP (s.timer.dueBy (clock (i + 2 * b))) ≤ b := h.budget
  rw [HeapTimer.looping, hd.countP_eq] at hfew
  rw [hd.countP_eq] at hbudget
  have hmem : n ∈ s.timer.heapData := Array.mem_toList_iff.1 (hd.perm.subset (.head _))
  rcases hd.countP_next (hd.loops_eq ho) with ⟨hloops, hi, hsize, hcount⟩ | ⟨-, hi, hsize, hcount⟩
  · right
    obtain ⟨hloops', hexpire⟩ := hd.again hi hloops
    have hle : s.timer.expire n ≤ clock (i + 2 * b) := by
      have hle := (h.tested.ordered.due hdue).2.1
      rw [h.tested.clock] at hle
      exact Int.le_trans hle (hclock (Nat.le_add_right _ _))
    rw [HeapTimer.dueBy, hloops, decide_eq_true hle, Bool.and_self, if_pos rfl] at hbudget
    obtain ⟨b', rfl⟩ : ∃ b', b = b' + 1 := ⟨b - 1, by omega⟩
    have hlate : s'.timer.dueBy (clock (i + 2 * (b' + 1))) n = false := by
      rw [HeapTimer.dueBy, hexpire, Bool.and_eq_false_iff]
      refine .inr (decide_eq_false (Int.not_le.2 ?_))
      refine Int.lt_of_le_of_lt (hclock ?_) (h.slow n hmem hloops (i + 1))
      omega
    refine ⟨hsize, b', rfl, hd.tested, hslow, ?_, ?_⟩
    · rw [HeapTimer.looping, hcount, hloops']
      rwa [hloops] at hfew
    · have hindex : i' + 2 * b' = i + 2 * (b' + 1) := by omega
      rcases hd.countP_next (hd.dueBy_eq ho (clock (i' + 2 * b'))) with ⟨-, -, -, hdueBy⟩ | ⟨-, hi', -⟩
      · refine Nat.le_trans (Nat.le_of_eq hdueBy) ?_
        rw [hindex, hlate]
        exact Nat.le_of_succ_le_succ hbudget
      · omega
  · left
    have hfew' : s'.timer.looping ≤ k := by
      rw [HeapTimer.looping, hcount]
      exact Nat.le_trans (Nat.le_add_right _ _) hfew
    exact ⟨hsize, hd.tested, hslow, hfew', Nat.le_trans looping_le_countP hfew'⟩

/-- The clock is slow enough for a call that has begun. -/
theorem Draining.ends {k b : Nat} (h : Draining clock k b (s, i)) (hclock : NeverBack clock)
    (hb : b ≤ k) : ∃ r, (drain A clock rst).Ends (s, i) (some (.returns r)) := by
  -- the variant: each timer in the heap stands for more than a whole budget
  have hvariant := @Loop.ends_of_variant _ _ (drain A clock rst) (s, i)
    (fun v t => ∃ b ≤ k, v = t.1.timer.heapData.size * (k + 1) + b ∧ Draining clock k b t)
    (fun e => ∃ r, e = some (.returns r)) ?_ _ ⟨b, hb, rfl, h⟩
  · obtain ⟨e, hends, r, rfl⟩ := hvariant
    exact ⟨r, hends⟩
  · rintro v ⟨s, i⟩ ⟨b, hb, rfl, h⟩
    cases hdue : s.due with
    | none =>
      obtain ⟨r, hr⟩ := h.tested.ending hdue
      refine .inl ⟨_, ?_, r, hr⟩
      simp only [drain, hdue]
    | some n =>
      obtain ⟨s', i', hround, hnext⟩ := h.round A rst hclock hb hdue
      right
      rcases hnext with ⟨hsize, hnext⟩ | ⟨hsize, b', rfl, hnext⟩
      · refine ⟨_, _, hround, ?_, k, Nat.le_refl _, rfl, hnext⟩
        change s'.timer.heapData.size * (k + 1) + k < s.timer.heapData.size * (k + 1) + b
        rw [← hsize, Nat.succ_mul]
        omega
      · refine ⟨_, _, hround, ?_, b', Nat.le_of_succ_le hb, rfl, hnext⟩
        change s'.timer.heapData.size * (k + 1) + b' < s.timer.heapData.size * (k + 1) + (b' + 1)
        rw [hsize]
        omega

theorem tested_timerLoop (ho : Ordered s) (hcall : s.calling = true) :
    Tested clock ((timerRun A).next s (.timerLoop (clock 0))) 0 :=
  .next (ho.step hcall) rfl rfl

variable {as : List RunAction}

/-- **`timer_loop` returns** under a clock that is slow enough for the timers that loop. -/
theorem timerLoop_returns (h : (timerRun A).Runs {} as)
    (hcall : ((timerRun A).exec {} as).calling = true) (hclock : NeverBack clock)
    (hslow : ∀ n ∈ ((timerRun A).exec {} as).timer.heapData,
      ((timerRun A).exec {} as).timer.loops n = true →
        ((timerRun A).exec {} as).timer.requested n < 2 ^ 31 ∧
        ∀ i, clock (i + (2 * ((timerRun A).exec {} as).timer.looping - 1)) - clock i <
          ((timerRun A).exec {} as).timer.requested n) :
    Returns A clock rst ((timerRun A).exec {} as) := by
  have ho := ordered_init.runs h
  generalize (timerRun A).exec {} as = s at hcall hslow ho ⊢
  refine Draining.ends (k := s.timer.looping) ⟨@tested_timerLoop A clock s ho hcall,
    fun n hn hloops j => ?_, Nat.le_refl _, looping_le_countP⟩ hclock (Nat.le_refl _)
  obtain ⟨hlt, hgaps⟩ := hslow n hn hloops
  have hgap := hgaps j
  rw [← toInt_of_requested hlt] at hgap
  change clock (j + (2 * s.timer.looping - 1)) < clock j + (s.timer.nodes n).interval.toInt
  omega

/-- Two timers, the interval of one of which is the smallest that the clock allows. -/
def twoLoops : List RunAction := [.start 0 4 true, .start 0 9 true]

theorem timerLoop_returns_two :
    Returns .sifting (fun i => 10 + i) (fun _ => true) ((timerRun .sifting).exec {} twoLoops) := by
  refine timerLoop_returns (by decide) rfl (fun i j hij => ?_) fun n hn _ => ?_
  · omega
  · have hlooping : ((timerRun .sifting).exec {} twoLoops).timer.looping = 2 := by decide
    have hheap : ((timerRun .sifting).exec {} twoLoops).timer.heapData.toList = [0, 1] := by decide
    have hrequested : ∀ m ∈ [0, 1], 4 ≤ ((timerRun .sifting).exec {} twoLoops).timer.requested m ∧
        ((timerRun .sifting).exec {} twoLoops).timer.requested m < 2 ^ 31 :=
      List.forall_mem_cons.2 ⟨by decide, List.forall_mem_singleton.2 (by decide)⟩
    rw [hlooping]
    obtain ⟨hge, hlt⟩ := hrequested n (hheap ▸ Array.mem_toList_iff.2 hn)
    refine ⟨hlt, fun i => ?_⟩
    simp only [Nat.reduceMul, Nat.reduceSub]
    omega

/-! ## Clocks that are too fast -/

/-- Each timer that loops is due again when its turn comes. -/
structure Busy (clock : Nat → Int) (k : Nat) (t : TimerRun × Nat) : Prop where
  tested : Tested clock t.1 t.2
  fast : t.1.timer.EachLoop fun interval => ∀ j, clock j + interval ≤ clock (j + (2 * k - 1))
  all : t.1.timer.looping = k
  due : ∀ j < k, j + 1 ≤ t.1.timer.heapData.toList.countP (t.1.timer.dueBy (clock (t.2 + 2 * j)))

theorem countP_dueBy_mono {t : HeapTimer} {c c' : Int} {ns : List Nat} (h : c ≤ c') :
    ns.countP (t.dueBy c) ≤ ns.countP (t.dueBy c') := by
  refine List.countP_mono_left fun m _ hm => ?_
  rw [HeapTimer.dueBy, Bool.and_eq_true, decide_eq_true_eq] at hm ⊢
  exact ⟨hm.1, Int.le_trans hm.2 h⟩

/-- A timer goes only if it does not loop. -/
theorem loops_of_gone (hrst : rst i = true) (h : (s.timer.loops n && rst i) = false) :
    s.timer.loops n = false := by
  rwa [hrst, Bool.and_true] at h

/-- After a round as many timers are due as before. -/
theorem Busy.due_next {k j i' : Nat} {s' : TimerRun} {rest : List Nat} (h : Busy clock k (s, i))
    (hd : Drained clock rst s i n s' i' rest) (hclock : NeverBack clock) (hrst : rst i = true)
    (hj : j < k) :
    j + 1 ≤ s'.timer.heapData.toList.countP (s'.timer.dueBy (clock (i' + 2 * j))) := by
  have ho := h.tested.ordered
  have hdue : ∀ l < k, l + 1 ≤ rest.countP (s.timer.dueBy (clock (i + 2 * l))) +
      if s.timer.dueBy (clock (i + 2 * l)) n then 1 else 0 := by
    intro l hl
    rw [← hd.countP_eq]
    exact h.due l hl
  have hold := hdue j hj
  have hmono : clock (i + 2 * j) ≤ clock (i' + 2 * j) := by
    refine hclock ?_
    rcases hd.cases with ⟨-, hi, -⟩ | ⟨-, hi, -⟩
    · omega
    · omega
  have hrest := @countP_dueBy_mono s.timer _ _ rest hmono
  rcases hd.countP_next (hd.dueBy_eq ho (clock (i' + 2 * j))) with
    ⟨hloops, hi, -, hcount⟩ | ⟨hgone, -, -, hcount⟩
  · rw [hcount]
    by_cases hlast : j + 1 < k
    · have hnext := hdue (j + 1) hlast
      have hindex : i + 2 * (j + 1) = i' + 2 * j := by omega
      rw [hindex] at hnext
      split at hnext <;> omega
    · -- the timer itself is due again: its interval passes in the `2k - 1` gaps to that reading
      have hdueBy : s'.timer.dueBy (clock (i' + 2 * j)) n = true := by
        obtain ⟨hloops', hexpire⟩ := hd.again hi hloops
        have hle := h.fast n (Array.mem_toList_iff.1 (hd.perm.subset (.head _))) hloops (i + 1)
        rw [HeapTimer.dueBy, hloops', hexpire, Bool.true_and, decide_eq_true_eq]
        refine Int.le_trans hle (hclock ?_)
        omega
      rw [hdueBy, if_pos rfl]
      split at hold <;> omega
  · rw [HeapTimer.dueBy, loops_of_gone hrst hgone, Bool.false_and] at hold
    rw [hcount]
    exact Nat.le_trans hold hrest

/-- **A round** leaves a timer due for the next. -/
theorem Busy.round {k : Nat} (h : Busy clock k (s, i)) (hclock : NeverBack clock) (hk : 0 < k)
    (hrst : ∀ j, rst j = true) :
    ∃ t, drain A clock rst (s, i) = .inl t ∧ Busy clock k t := by
  have ht : Tested clock s i := h.tested
  have ho := ht.ordered
  have hsome : 0 < s.timer.heapData.toList.countP (s.timer.dueBy (clock i)) := h.due 0 hk
  obtain ⟨m, hm, hdueBy⟩ := List.countP_pos_iff.1 hsome
  rw [HeapTimer.dueBy, Bool.and_eq_true, decide_eq_true_eq] at hdueBy
  obtain ⟨n, hdue⟩ := ht.exists_due (Array.mem_toList_iff.1 hm) hdueBy.2
  obtain ⟨s', i', hround, hd⟩ := ht.drain A rst hdue
  generalize (s.timer.popBy A).heapData.toList = rest at hd
  have hall : s.timer.looping = k := h.all
  rw [HeapTimer.looping, hd.countP_eq] at hall
  refine ⟨_, hround, hd.tested, hd.eachLoop ho h.fast, ?_, fun j hj => ?_⟩
  · rcases hd.countP_next (hd.loops_eq ho) with ⟨hloops, hi, -, hcount⟩ | ⟨hgone, -, -, hcount⟩
    · rw [hloops] at hall
      rw [(hd.again hi hloops).1] at hcount
      exact hcount.trans hall
    · rw [loops_of_gone (hrst i) hgone] at hall
      exact hcount.trans hall
  · exact h.due_next hd hclock (hrst i) hj

/-- **`timer_loop` does not return** while all that loops is due, the intervals of which pass in
`2k - 1` gaps. -/
theorem not_returns_of_busy (h : (timerRun A).Runs {} as)
    (hcall : ((timerRun A).exec {} as).calling = true) (hclock : NeverBack clock)
    (hrst : ∀ i, rst i = true) (hpos : 0 < ((timerRun A).exec {} as).timer.looping)
    (hdue : ∀ n ∈ ((timerRun A).exec {} as).timer.heapData,
      ((timerRun A).exec {} as).timer.loops n = true →
        ((timerRun A).exec {} as).timer.expire n ≤ clock 0)
    (hfast : ((timerRun A).exec {} as).timer.EachLoop fun interval => ∀ i, clock i + interval ≤
      clock (i + (2 * ((timerRun A).exec {} as).timer.looping - 1))) :
    ¬ Returns A clock rst ((timerRun A).exec {} as) := by
  have ho := ordered_init.runs h
  generalize (timerRun A).exec {} as = s at hcall hpos hdue hfast ho ⊢
  rintro ⟨r, hr⟩
  refine Loop.not_ends_of_invariant (I := Busy clock s.timer.looping)
    (fun t ht => ht.round hclock hpos hrst)
    ⟨@tested_timerLoop A clock s ho hcall, hfast, rfl, fun j hj => ?_⟩ hr
  refine Nat.le_trans hj (List.countP_mono_left fun n hn hloops => ?_)
  rw [HeapTimer.dueBy, Bool.and_eq_true, decide_eq_true_eq]
  exact ⟨hloops, Int.le_trans (hdue n (Array.mem_toList_iff.1 hn) hloops) (hclock (Nat.zero_le _))⟩

/-- The interval in a call that schedules a timer. -/
def RunAction.interval : RunAction → Option UInt32
  | .start _ interval _ | .restart _ _ interval => some interval
  | .stop _ | .timerLoop _ | .round _ | .handled .. | .finish _ | .elsewhere => none

/-- The clock goes on, and fewer microseconds pass between two readings than the smallest interval
in the calls that is not 0. -/
structure SlowClock (as : List RunAction) (clock : Nat → Int) : Prop where
  monotone : NeverBack clock
  unbounded : ∀ c, ∃ i, c ≤ clock i
  gaps : ∀ a ∈ as, ∀ interval, a.interval = some interval → 0 < interval →
    ∀ i, clock (i + 1) - clock i < interval.toNat

theorem slowClock_of_gap {d e : Nat} (hd : 0 < d) (has : ∀ a ∈ as, ∀ interval,
    a.interval = some interval → 0 < interval → d < interval.toNat) :
    SlowClock as fun i => e + d * i where
  monotone i j hij := by
    have hmul : d * i ≤ d * j := Nat.mul_le_mul_left d hij
    change (e + d * i : Int) ≤ e + d * j
    exact_mod_cast Nat.add_le_add_left hmul e
  unbounded c := by
    refine ⟨c.toNat, ?_⟩
    have hmul : c.toNat ≤ d * c.toNat := Nat.le_mul_of_pos_left _ hd
    change c ≤ (e + d * c.toNat : Int)
    have hmul' : (c.toNat : Int) ≤ d * c.toNat := by exact_mod_cast hmul
    omega
  gaps a ha interval hinterval hpos i := by
    have hlt := has a ha interval hinterval hpos
    change (e + d * (i + 1 : Nat) : Int) - (e + d * i) < interval.toNat
    push_cast
    rw [Int.mul_add]
    omega

/-- Two timers with ordinary intervals keep `timer_loop` busy, and so does one with interval 0. -/
theorem loop_overloaded :
    (¬ ∀ as clock rst, (timerRun .sifting).Runs {} as →
      (∀ a ∈ as, ∃ interval, a.interval = some interval ∧ 0 < interval ∧ interval.toNat < 2 ^ 31) →
        SlowClock as clock → Returns .sifting clock rst ((timerRun .sifting).exec {} as)) ∧
    ¬ ∀ a clock rst, (timerRun .sifting).Runs {} [a] → a.interval.isSome →
      SlowClock [a] clock → Returns .sifting clock rst ((timerRun .sifting).exec {} [a]) := by
  constructor
  · intro h
    let as : List RunAction := [.start 0 10 true, .start 0 10 true]
    have hslow : SlowClock as fun i => (18 : Nat) + (9 : Nat) * i := by
      refine slowClock_of_gap (by decide) fun a ha interval hinterval _ => ?_
      rcases List.mem_cons.1 ha with rfl | ha
      · cases hinterval
        decide
      · cases List.mem_singleton.1 ha
        cases hinterval
        decide
    have hordinary : ∀ a ∈ as, ∃ interval,
        a.interval = some interval ∧ 0 < interval ∧ interval.toNat < 2 ^ 31 :=
      List.forall_mem_cons.2 ⟨⟨10, rfl, by decide, by decide⟩,
        List.forall_mem_singleton.2 ⟨10, rfl, by decide, by decide⟩⟩
    have hheap : ((timerRun .sifting).exec {} as).timer.heapData.toList = [0, 1] := by decide
    have hnodes : ∀ n ∈ [0, 1], ((timerRun .sifting).exec {} as).timer.expire n = 10 ∧
        (((timerRun .sifting).exec {} as).timer.nodes n).interval.toInt = 10 :=
      List.forall_mem_cons.2 ⟨by decide, List.forall_mem_singleton.2 (by decide)⟩
    have hlooping : ((timerRun .sifting).exec {} as).timer.looping = 2 := by decide
    refine not_returns_of_busy (by decide) rfl hslow.monotone (fun _ => rfl) (by decide)
      (fun n hn _ => ?_) (fun n hn _ i => ?_) (h as _ (fun _ => true) (by decide) hordinary hslow)
    · rw [(hnodes n (hheap ▸ Array.mem_toList_iff.2 hn)).1]
      decide
    · rw [(hnodes n (hheap ▸ Array.mem_toList_iff.2 hn)).2, hlooping]
      push_cast
      omega
  · intro h
    let as : List RunAction := [.start 0 0 true]
    have hslow : SlowClock as fun i => (0 : Nat) + (1 : Nat) * i := by
      refine slowClock_of_gap (by decide) fun a ha interval hinterval hpos => ?_
      cases List.mem_singleton.1 ha
      cases hinterval
      exact absurd hpos (by decide)
    have hheap : ((timerRun .sifting).exec {} as).timer.heapData.toList = [0] := by decide
    have hnode : ((timerRun .sifting).exec {} as).timer.expire 0 = 0 ∧
        (((timerRun .sifting).exec {} as).timer.nodes 0).interval.toInt = 0 := by decide
    have hmem : ∀ n ∈ ((timerRun .sifting).exec {} as).timer.heapData, n = 0 := fun n hn =>
      List.mem_singleton.1 (hheap ▸ Array.mem_toList_iff.2 hn)
    refine not_returns_of_busy (by decide) rfl hslow.monotone (fun _ => rfl) (by decide)
      (fun n hn _ => ?_) (fun n hn _ i => ?_) (h _ _ (fun _ => true) (by decide) rfl hslow)
    · rw [hmem n hn, hnode.1]
      decide
    · rw [hmem n hn, hnode.2, Int.add_zero]
      exact hslow.monotone (Nat.le_add_right _ _)

end SNet.Utils
