import SNet.Utils.TimerRun

/-!
# The order of the timers

Every node is in the heap or in the handler of one `timer_loop`, once, and the expiry time of a node
changes only while it is out of the heap. So the heap stays in order (`Ordered`), each node that
`timer_loop` takes out is the next to expire, and it returns the time to the next one
(`inOrder_of_runs`).
-/

namespace SNet.Utils

open BinaryHeap

/-! ## Expiry times -/

section

variable {A : TimerHeaps} {t t' : HeapTimer} {n m : Nat} {now : Int} {interval k : UInt32}
  {loop rst : Bool} {node : TimerNode} {held : List Nat}

theorem expire_setNode_of_ne (h : m ≠ n) : (t.setNode n node).expire m = t.expire m := by
  change (Function.update t.nodes n node m).expireTime = _
  rw [Function.update_of_ne h]
  rfl

theorem expire_stop : (t.stop k n).expire m = t.expire m := by
  change (Function.update t.nodes n { t.nodes n with stopped := true } m).expireTime = _
  rw [Function.update_apply]
  split
  · next heq => rw [heq]; rfl
  · rfl

theorem expire_stopTimer : (t.stopTimer k).1.expire m = t.expire m := by
  rw [HeapTimer.stopTimer]
  split
  · exact expire_stop
  · rfl

theorem expire_startTimer (h : m < t.created) :
    (t.startTimer A now interval loop).1.expire m = t.expire m :=
  expire_setNode_of_ne (Nat.ne_of_lt h)

theorem expire_restartTimer (h : m < t.created) :
    (t.restartTimer A now k interval).1.expire m = t.expire m := by
  rw [HeapTimer.restartTimer]
  split
  · rfl
  · exact (expire_setNode_of_ne (Nat.ne_of_lt h)).trans expire_stop

theorem expire_handleTimeout (h : m ≠ n) :
    (t.handleTimeout A n rst now).expire m = t.expire m := by
  rw [HeapTimer.handleTimeout]
  split
  · exact expire_setNode_of_ne h
  · split
    · rfl
    · exact expire_stop

/-! ## Places -/

/-- Every node is in one place, in the heap or held, and the heap is in order. -/
structure InPlace (t : HeapTimer) (held : List Nat) : Prop where
  heap : IsHeap t.before t.heapData
  once : (t.heapData.toList ++ held).Nodup
  created : ∀ n ∈ t.heapData.toList ++ held, n < t.created

namespace InPlace

theorem not_mem_of_held (h : InPlace t (n :: held)) : n ∉ t.heapData := fun hn =>
  (List.nodup_append.1 h.once).2.2 n (Array.mem_toList_iff.2 hn) n (.head _) rfl

/-- A change of nodes that are not in the heap. -/
theorem mono (h : InPlace t held) (hheap : t'.heapData = t.heapData)
    (hexpire : ∀ n ∈ t.heapData, t'.expire n = t.expire n) (hcreated : t.created ≤ t'.created) :
    InPlace t' held where
  heap := by
    rw [hheap]
    refine h.heap.congr fun n hn m hm => ?_
    change decide (t'.expire n < t'.expire m) = decide (t.expire n < t.expire m)
    rw [hexpire n hn, hexpire m hm]
  once := by
    rw [hheap]
    exact h.once
  created n hn := by
    rw [hheap] at hn
    exact Nat.lt_of_lt_of_le (h.created n hn) hcreated

theorem insertBy (h : InPlace t (n :: held)) : InPlace (t.insertBy A n) held := by
  have hperm : ((t.insertBy A n).heapData.toList ++ held).Perm (t.heapData.toList ++ n :: held) :=
    ((MinHeap.insert_perm h.heap).append_right held).trans List.perm_middle.symm
  refine ⟨MinHeap.insert_isHeap h.heap, hperm.nodup_iff.2 h.once, fun m hm => ?_⟩
  exact h.created m (hperm.subset hm)

/-- A node that is made is held by the caller at first. -/
theorem make {timer : Nat} (h : InPlace t held) :
    InPlace (t.make node timer) (t.created :: held) := by
  have hexpire : ∀ n ∈ t.heapData, (t.make node timer).expire n = t.expire n := fun n hn =>
    expire_setNode_of_ne
      (Nat.ne_of_lt (h.created n (List.mem_append_left _ (Array.mem_toList_iff.2 hn))))
  have hmono : InPlace (t.make node timer) held := h.mono rfl hexpire (Nat.le_succ _)
  refine ⟨hmono.heap, ?_, fun n hn => ?_⟩
  · refine List.perm_middle.symm.nodup_iff.1 (List.nodup_cons.2 ⟨fun hn => ?_, h.once⟩)
    exact Nat.lt_irrefl _ (h.created _ hn)
  · rcases List.mem_cons.1 (List.perm_middle.subset hn) with rfl | hn
    · exact Nat.lt_succ_self _
    · exact hmono.created n hn

/-- A node that is held may be changed. -/
theorem setNode (h : InPlace t (n :: held)) : InPlace (t.setNode n node) (n :: held) := by
  refine h.mono rfl (fun m hm => expire_setNode_of_ne ?_) (Nat.le_refl _)
  rintro rfl
  exact h.not_mem_of_held hm

theorem stop (h : InPlace t held) : InPlace (t.stop k n) held :=
  h.mono rfl (fun _ _ => expire_stop) (Nat.le_refl _)

theorem startTimer (h : InPlace t held) :
    InPlace (t.startTimer A now interval loop).1 held :=
  (InPlace.insertBy h.make).mono rfl (fun _ _ => rfl) (Nat.le_refl _)

theorem stopTimer (h : InPlace t held) : InPlace (t.stopTimer k).1 held := by
  rw [HeapTimer.stopTimer]
  split
  · exact h.stop
  · exact h

theorem restartTimer (h : InPlace t held) :
    InPlace (t.restartTimer A now k interval).1 held := by
  rw [HeapTimer.restartTimer]
  split
  · exact h
  · exact (InPlace.insertBy h.stop.make).mono rfl (fun _ _ => rfl) (Nat.le_refl _)

theorem drop (h : InPlace t (n :: held)) : InPlace t held where
  heap := h.heap
  once := (List.nodup_cons.1 (List.perm_middle.nodup_iff.1 h.once)).2
  created m hm := h.created m (List.perm_middle.symm.subset (.tail _ hm))

theorem handleTimeout (h : InPlace t (n :: held)) :
    InPlace (t.handleTimeout A n rst now) held := by
  rw [HeapTimer.handleTimeout]
  split
  · exact h.setNode.insertBy
  · split
    · exact h.drop
    · exact h.drop.stop

theorem popBy_perm (h : InPlace t held) (hn : t.front = some n) :
    (n :: (t.popBy A).heapData.toList).Perm t.heapData.toList := by
  obtain ⟨ys, hpop, -, -, hperm⟩ := MinHeap.pop_eq (A := A t.expire) (e := 0) h.heap hn
  rw [HeapTimer.popBy, hpop]
  exact hperm

theorem popBy (h : InPlace t held) (hn : t.front = some n) :
    InPlace (t.popBy A) (n :: held) := by
  have hperm : ((t.popBy A).heapData.toList ++ n :: held).Perm (t.heapData.toList ++ held) :=
    List.perm_middle.trans ((h.popBy_perm hn).append_right held)
  refine ⟨MinHeap.pop_isHeap h.heap, hperm.nodup_iff.2 h.once, fun m hm => ?_⟩
  exact h.created m (hperm.subset hm)

/-- The front expires first. -/
theorem front_le (h : InPlace t held) (hn : t.front = some n) (hm : m ∈ t.heapData) :
    t.expire n ≤ t.expire m := by
  have hheap : IsHeap (fun n m => decide (t.expire n < t.expire m)) t.heapData := h.heap
  exact Int.not_lt.1 (of_decide_eq_false (hheap.front hn hm))

end InPlace

end

/-! ## Steps -/

variable {A : TimerHeaps} {s : TimerRun} {a : RunAction} {as : List RunAction} {n : Nat}

/-- The nodes are in their places, all calls of `timer_loop` but the innermost run a handler, and that
one knows the front of the heap at its condition. -/
structure Ordered (s : TimerRun) : Prop where
  inPlace : InPlace s.timer s.held
  outer : ∀ f ∈ s.frames.tail, ∃ n, f = .handling n
  innermost : ∀ f, s.frames.head? = some f →
    f = .testing s.clock s.timer.front ∨ ∃ n, f = .handling n

theorem ordered_init : Ordered {} where
  inPlace := ⟨isHeap_empty, .nil, fun _ h => (by cases h)⟩
  outer _ h := by cases h
  innermost _ h := by cases h

theorem due_some (hd : s.due = some n) :
    ∃ cur, s.frames.head? = some (.testing cur (some n)) ∧ s.timer.expire n ≤ cur := by
  rw [TimerRun.due] at hd
  split at hd
  · next cur node rest hframes =>
    cases node with
    | none => cases hd
    | some m =>
      rw [HeapTimer.due] at hd
      split at hd
      · next hle =>
        cases hd
        exact ⟨cur, by rw [hframes]; rfl, hle⟩
      · cases hd
  · cases hd

theorem head_of_inHand (hn : s.inHand = some n) : s.frames = .handling n :: s.frames.tail := by
  obtain ⟨f, hf, hfn⟩ := Option.bind_eq_some_iff.1 hn
  cases f with
  | handling m =>
    cases hfn
    exact List.eq_cons_of_mem_head? hf
  | testing | recursed => cases hfn

theorem held_of_inHand (hn : s.inHand = some n) :
    s.held = n :: s.frames.tail.filterMap LoopFrame.node := by
  rw [TimerRun.held, head_of_inHand hn]
  rfl

namespace Ordered

theorem due (h : Ordered s) (hd : s.due = some n) :
    s.timer.front = some n ∧ s.timer.expire n ≤ s.clock ∧
      s.frames = .testing s.clock s.timer.front :: s.frames.tail := by
  obtain ⟨cur, hhead, hle⟩ := due_some hd
  rcases h.innermost _ hhead with heq | ⟨m, heq⟩
  · obtain ⟨rfl, hfront⟩ := LoopFrame.testing.inj heq
    rw [← hfront]
    exact ⟨rfl, hle, List.eq_cons_of_mem_head? hhead⟩
  · cases heq

theorem held_of_due (h : Ordered s) (hd : s.due = some n) :
    s.held = s.frames.tail.filterMap LoopFrame.node := by
  rw [TimerRun.held, (h.due hd).2.2]
  rfl

theorem calling (h : Ordered s) (hcall : s.calling = true) :
    ∀ f ∈ s.frames, ∃ n, f = .handling n := by
  intro f hf
  rw [TimerRun.calling] at hcall
  split at hcall
  · next hnil =>
    rw [hnil] at hf
    cases hf
  · next n rest hframes =>
    have houter := h.outer
    rw [hframes] at hf houter
    rcases List.mem_cons.1 hf with rfl | hf
    · exact ⟨n, rfl⟩
    · exact houter f hf
  · cases hcall

/-- `timer_loop` has left its loop because nothing is due, and returns. -/
theorem ending (h : Ordered s) {e : LoopEnd} (he : s.ending = some e) :
    s.held = s.frames.tail.filterMap LoopFrame.node ∧
      ((s.timer.front = none ∧ e = .returns 1) ∨
        ∃ n, s.timer.front = some n ∧ s.clock < s.timer.expire n ∧
          e = .returns (s.timer.expire n - s.clock)) := by
  rw [TimerRun.ending] at he
  split at he
  · next cur node rest hframes =>
    obtain heq | ⟨m, heq⟩ := h.innermost (.testing cur node) (by rw [hframes]; rfl)
    · obtain ⟨rfl, rfl⟩ := LoopFrame.testing.inj heq
      refine ⟨by rw [TimerRun.held, hframes]; rfl, ?_⟩
      split at he
      · next hdue =>
        cases he
        cases hfront : s.timer.front with
        | none => exact .inl ⟨rfl, rfl⟩
        | some n =>
          rw [hfront, HeapTimer.due] at hdue
          split at hdue
          · cases hdue
          · next hlt =>
            refine .inr ⟨n, rfl, Int.not_le.1 hlt, ?_⟩
            rw [HeapTimer.loopEnd, if_pos (Int.not_le.1 hlt)]
      · cases he
    · cases heq
  · next rest hframes =>
    obtain heq | ⟨m, heq⟩ := h.innermost .recursed (by rw [hframes]; rfl)
    · cases heq
    · cases heq
  · cases he

/-- So it never calls itself. -/
theorem next_finish (h : Ordered s) (hend : s.ending ≠ none) (A : TimerHeaps) (now : Int) :
    (timerRun A).next s (.finish now) = { s with frames := s.frames.tail } ∧
      s.held = s.frames.tail.filterMap LoopFrame.node := by
  obtain ⟨e, he⟩ := Option.ne_none_iff_exists'.1 hend
  obtain ⟨hheld, hcases⟩ := h.ending he
  refine ⟨?_, hheld⟩
  simp only [timerRun, he]
  rcases hcases with ⟨-, rfl⟩ | ⟨n, -, -, rfl⟩
  · rfl
  · rfl

/-- A call while nothing or a handler is under way. -/
theorem called {t : HeapTimer} {clock : Int} (h : Ordered s) (hcall : s.calling = true)
    (ht : InPlace t s.held) : Ordered { s with timer := t, clock := clock } where
  inPlace := ht
  outer := h.outer
  innermost f hf := .inr (h.calling hcall f (List.mem_of_mem_head? hf))

/-- The innermost `timer_loop` comes to its condition. -/
theorem tested {t : HeapTimer} {clock : Int} {fs : List LoopFrame}
    (ht : InPlace t (fs.filterMap LoopFrame.node)) (houter : ∀ f ∈ fs, ∃ n, f = .handling n) :
    Ordered { timer := t, frames := .testing clock t.front :: fs, clock := clock } where
  inPlace := ht
  outer := houter
  innermost _ hf := .inl (Option.some.inj hf).symm

theorem round {now : Int} (h : Ordered s) (hdue : s.due ≠ none) :
    Ordered ((timerRun A).next s (.round now)) := by
  obtain ⟨n, hn⟩ := Option.ne_none_iff_exists'.1 hdue
  have hpop : InPlace (s.timer.popBy A) (n :: s.frames.tail.filterMap LoopFrame.node) :=
    h.held_of_due hn ▸ h.inPlace.popBy (h.due hn).1
  simp only [timerRun, hn]
  split
  · exact tested hpop.drop h.outer
  · exact ⟨hpop, h.outer, fun _ hf => .inr ⟨n, (Option.some.inj hf).symm⟩⟩

theorem handled {rst : Bool} {now now' : Int} (h : Ordered s) (hhand : s.inHand ≠ none) :
    Ordered ((timerRun A).next s (.handled rst now now')) := by
  obtain ⟨n, hn⟩ := Option.ne_none_iff_exists'.1 hhand
  have hin : InPlace s.timer (n :: s.frames.tail.filterMap LoopFrame.node) :=
    held_of_inHand hn ▸ h.inPlace
  simp only [timerRun, hn]
  exact tested hin.handleTimeout h.outer

theorem finish {now : Int} (h : Ordered s) (hend : s.ending ≠ none) :
    Ordered ((timerRun A).next s (.finish now)) := by
  obtain ⟨hnext, hheld⟩ := h.next_finish hend A now
  have hin : InPlace s.timer (s.frames.tail.filterMap LoopFrame.node) := hheld ▸ h.inPlace
  rw [hnext]
  refine ⟨hin, fun f hf => h.outer f (List.mem_of_mem_tail hf), fun f hf => ?_⟩
  exact .inr (h.outer f (List.mem_of_mem_head? hf))

theorem step (h : Ordered s) (ha : (timerRun A).enabled s a) : Ordered ((timerRun A).next s a) := by
  cases a with
  | start now interval loop => exact h.called ha h.inPlace.startTimer
  | stop id => exact h.called ha h.inPlace.stopTimer
  | restart now id interval => exact h.called ha h.inPlace.restartTimer
  | timerLoop now => exact tested h.inPlace (h.calling ha)
  | round now => exact h.round ha
  | handled rst now now' => exact h.handled ha
  | finish now => exact h.finish ha
  | elsewhere =>
    exact ⟨h.inPlace.mono rfl (fun _ _ => rfl) (Nat.le_refl _), h.outer, h.innermost⟩

end Ordered

theorem Ordered.runs (h : Ordered s) (hruns : (timerRun A).Runs s as) :
    Ordered ((timerRun A).exec s as) :=
  hruns.invariant (fun _ _ ha hs => hs.step ha) h

/-! ## The order -/

/-- What is to hold of a step: no expiry time changes in the heap, a node that `timer_loop` takes out
is due and expires before all others, and when it returns nothing is due and it returns the time to
the next expiry, or 1 if there is none. -/
structure InOrder (A : TimerHeaps) (s : TimerRun) (a : RunAction) : Prop where
  unchanged : ∀ n ∈ s.timer.heapData,
    ((timerRun A).next s a).timer.expire n = s.timer.expire n
  least : ∀ now n, a = .round now → s.due = some n →
    n ∈ s.timer.heapData ∧ (∀ m ∈ s.timer.heapData, s.timer.expire n ≤ s.timer.expire m) ∧
      s.timer.expire n ≤ s.clock
  deadline : ∀ now, a = .finish now → ∃ r, s.ending = some (.returns r) ∧ 0 < r ∧
    (∀ n ∈ s.timer.heapData, s.clock < s.timer.expire n) ∧
    (s.timer.heapData = #[] ∧ r = 1 ∨
      ∃ n ∈ s.timer.heapData, r = s.timer.expire n - s.clock ∧
        ∀ m ∈ s.timer.heapData, s.timer.expire n ≤ s.timer.expire m)

/-- A node that comes out of the heap or goes into it was not there before. -/
theorem Ordered.expire_next (h : Ordered s) (hn : n ∈ s.timer.heapData) :
    ((timerRun A).next s a).timer.expire n = s.timer.expire n := by
  have hcreated : n < s.timer.created :=
    h.inPlace.created n (List.mem_append_left _ (Array.mem_toList_iff.2 hn))
  cases a with
  | start now interval loop => exact expire_startTimer hcreated
  | stop id => exact expire_stopTimer
  | restart now id interval => exact expire_restartTimer hcreated
  | timerLoop now | elsewhere => rfl
  | round now =>
    simp only [timerRun]
    split
    · rfl
    · split <;> rfl
  | handled rst now now' =>
    simp only [timerRun]
    split
    · rfl
    · next m hm =>
      have hin : InPlace s.timer (m :: s.frames.tail.filterMap LoopFrame.node) :=
        held_of_inHand hm ▸ h.inPlace
      refine expire_handleTimeout ?_
      rintro rfl
      exact hin.not_mem_of_held hn
  | finish now =>
    simp only [timerRun]
    split <;> rfl

theorem Ordered.inOrder (h : Ordered s) (ha : (timerRun A).enabled s a) : InOrder A s a where
  unchanged n hn := h.expire_next hn
  least now n _ hdue := by
    obtain ⟨hfront, hle, -⟩ := h.due hdue
    exact ⟨Array.mem_of_getElem? hfront, fun m hm => h.inPlace.front_le hfront hm, hle⟩
  deadline now heq := by
    subst heq
    obtain ⟨e, he⟩ := Option.ne_none_iff_exists'.1 ha
    obtain ⟨-, ⟨hnone, rfl⟩ | ⟨n, hfront, hlt, rfl⟩⟩ := h.ending he
    · have hnil : s.timer.heapData = #[] :=
        Array.size_eq_zero_iff.1 (by simpa [HeapTimer.front] using hnone)
      refine ⟨1, he, Int.one_pos, fun n hn => ?_, .inl ⟨hnil, rfl⟩⟩
      rw [hnil] at hn
      exact absurd hn (Array.not_mem_empty n)
    · have hle : ∀ m ∈ s.timer.heapData, s.timer.expire n ≤ s.timer.expire m :=
        fun m hm => h.inPlace.front_le hfront hm
      refine ⟨_, he, Int.sub_pos_of_lt hlt, fun m hm => Int.lt_of_lt_of_le hlt (hle m hm), .inr ?_⟩
      exact ⟨n, Array.mem_of_getElem? hfront, rfl, hle⟩

/-- **The order of the timers** and the next deadline, in every run. -/
theorem inOrder_of_runs (h : (timerRun A).Runs {} as)
    (ha : (timerRun A).enabled ((timerRun A).exec {} as) a) :
    InOrder A ((timerRun A).exec {} as) a :=
  (ordered_init.runs h).inOrder ha

/-- The handler of the first timer restarts the other one. -/
theorem inOrder_restarted :
    InOrder .sifting ((timerRun .sifting).exec {} [.start 0 5 true, .start 0 9 false, .timerLoop 7,
      .round 7, .restart 7 1025 1, .handled true 8 10]) (.round 11) :=
  inOrder_of_runs (by decide) (by decide)

end SNet.Utils
