import SNet.Utils.TimerIds
import SNet.Utils.TimerOrder

/-!
# One schedule for each timer

A timer is the node that `start_timer` makes with the nodes that `restart_timer` makes in its place.
At most one of them is current, that is not stopped and in the heap, in a handler or entered
(`Schedules`), and none becomes current again, so that what a stop or a restart ends never fires
(`oneSchedule_of_runs`).
-/

namespace SNet.Utils

/-! ## Current nodes -/

section

variable {A : TimerHeaps} {t t' : HeapTimer} {n m timer : Nat} {now : Int} {interval k : UInt32}
  {loop rst : Bool} {node : TimerNode} {held held' : List Nat}

/-- The node may fire, now or after a restart. -/
def HeapTimer.Current (t : HeapTimer) (held : List Nat) (n : Nat) : Prop :=
  (t.nodes n).stopped = false ∧
    (n ∈ t.heapData.toList ++ held ∨ ∃ k, t.timerNodes k = some n)

/-- The entries are running nodes, each under its key, and each timer has at most one current node. -/
structure Schedules (t : HeapTimer) (held : List Nat) : Prop where
  entry : ∀ k n, t.timerNodes k = some n →
    t.key n = k ∧ (t.nodes n).stopped = false ∧ n < t.created
  timer : ∀ n < t.created, t.timerOf n < t.created
  one : ∀ n m, t.Current held n → t.Current held m → t.timerOf n = t.timerOf m → n = m

/-- No node becomes current again. -/
structure NoneRevived (t : HeapTimer) (held : List Nat) (t' : HeapTimer) (held' : List Nat) :
    Prop where
  created : t.created ≤ t'.created
  current : ∀ n < t.created, t'.Current held' n → t.Current held n

theorem Schedules.lt (h : Schedules t held) (hp : InPlace t held) (hn : t.Current held n) :
    n < t.created := by
  rcases hn.2 with hn | ⟨k, hk⟩
  · exact hp.created n hn
  · exact (h.entry k n hk).2.2

/-- An operation that makes no node. -/
theorem Schedules.fewer (h : Schedules t held)
    (hentry : ∀ k n, t'.timerNodes k = some n → t'.key n = k ∧ (t'.nodes n).stopped = false ∧
      n < t.created)
    (htimer : t'.timerOf = t.timerOf) (hcreated : t'.created = t.created)
    (hcurrent : ∀ n, t'.Current held' n → t.Current held n) :
    Schedules t' held' ∧ NoneRevived t held t' held' := by
  refine ⟨⟨?_, ?_, fun n m hn hm heq => ?_⟩, Nat.le_of_eq hcreated.symm, fun n _ => hcurrent n⟩
  · rw [hcreated]
    exact hentry
  · rw [htimer, hcreated]
    exact h.timer
  · rw [htimer] at heq
    exact h.one n m (hcurrent n hn) (hcurrent m hm) heq

/-- Nodes change their places. -/
theorem Schedules.moved (h : Schedules t held) (hkey : ∀ n, t'.key n = t.key n)
    (hstopped : ∀ n, (t'.nodes n).stopped = (t.nodes n).stopped)
    (hentries : t'.timerNodes = t.timerNodes) (htimer : t'.timerOf = t.timerOf)
    (hcreated : t'.created = t.created)
    (hplaces : t'.heapData.toList ++ held' ⊆ t.heapData.toList ++ held) :
    Schedules t' held' ∧ NoneRevived t held t' held' := by
  refine h.fewer (fun k n hk => ?_) htimer hcreated fun n hn => ?_
  · rw [hkey, hstopped]
    rw [hentries] at hk
    exact h.entry k n hk
  · rw [HeapTimer.Current, hstopped, hentries] at hn
    exact hn.imp_right (Or.imp_left (@hplaces n))

theorem current_stop (h : (t.stop k n).Current held m) : m ≠ n ∧ t.Current held m := by
  obtain ⟨hne, hrunning⟩ := stopped_stop.1 h.1
  refine ⟨hne, hrunning, h.2.imp_right fun ⟨k', hk'⟩ => ⟨k', ?_⟩⟩
  have hk' : Function.update t.timerNodes k none k' = some m := hk'
  rw [Function.update_apply] at hk'
  split at hk'
  · cases hk'
  · exact hk'

theorem Schedules.stop (h : Schedules t held) (hkey : t.key n = k) (hheld : held' ⊆ held) :
    Schedules (t.stop k n) held' ∧ NoneRevived t held (t.stop k n) held' := by
  refine h.fewer (fun k' m hk' => ?_) rfl rfl fun m hm => ?_
  · have hk' : Function.update t.timerNodes k none k' = some m := hk'
    rw [Function.update_apply] at hk'
    split at hk'
    · cases hk'
    · next hne =>
      obtain ⟨hkey', hrunning, hlt⟩ := h.entry k' m hk'
      refine ⟨?_, stopped_stop.2 ⟨?_, hrunning⟩, hlt⟩
      · rw [← hkey']
        exact setNode_congr (fun node => node.timerId.toUInt32) rfl
      · rintro rfl
        exact hne (hkey'.symm.trans hkey)
  · obtain ⟨-, hrunning, hplace⟩ := current_stop hm
    refine ⟨hrunning, hplace.imp_left fun hmem => ?_⟩
    exact (List.mem_append.1 hmem).elim (List.mem_append_left _) fun hmem =>
      List.mem_append_right _ (hheld hmem)

/-- A node is made for a timer, inserted and entered. -/
structure Makes (t t' : HeapTimer) (node : TimerNode) (timer : Nat) : Prop where
  nodes : t'.nodes = Function.update t.nodes t.created node
  heap : t'.heapData.toList.Perm (t.created :: t.heapData.toList)
  entries : t'.timerNodes = Function.update t.timerNodes (t'.key t.created) (some t.created)
  timerOf : t'.timerOf = Function.update t.timerOf t.created timer
  created : t'.created = t.created + 1

namespace Makes

theorem old (h : Makes t t' node timer) (hn : n < t.created) :
    t'.nodes n = t.nodes n ∧ t'.timerOf n = t.timerOf n := by
  rw [h.nodes, h.timerOf, Function.update_of_ne (Nat.ne_of_lt hn),
    Function.update_of_ne (Nat.ne_of_lt hn)]
  exact ⟨rfl, rfl⟩

theorem new (h : Makes t t' node timer) :
    t'.nodes t.created = node ∧ t'.timerOf t.created = timer := by
  rw [h.nodes, h.timerOf, Function.update_self, Function.update_self]
  exact ⟨rfl, rfl⟩

theorem current (h : Makes t t' node timer) (hs : Schedules t held) (hp : InPlace t held)
    (hn : t'.Current held n) : n = t.created ∨ t.Current held n := by
  obtain ⟨hrunning, hplace⟩ := hn
  by_cases hn : n = t.created
  · exact .inl hn
  · right
    have hplace : n ∈ t.heapData.toList ++ held ∨ ∃ k, t.timerNodes k = some n := by
      refine hplace.imp (fun hmem => ?_) fun ⟨k, hk⟩ => ⟨k, ?_⟩
      · exact (List.mem_cons.1 ((h.heap.append_right held).mem_iff.1 hmem)).resolve_left hn
      · rw [h.entries, Function.update_apply] at hk
        split at hk
        · exact absurd (Option.some.inj hk).symm hn
        · exact hk
    have hlt : n < t.created := by
      rcases hplace with hmem | ⟨k, hk⟩
      · exact hp.created n hmem
      · exact (hs.entry k n hk).2.2
    rw [(h.old hlt).1] at hrunning
    exact ⟨hrunning, hplace⟩

end Makes

/-- A node is made for a timer without a current node. -/
theorem Schedules.made (h : Schedules t held) (hp : InPlace t held) (hmakes : Makes t t' node timer)
    (hnode : node.stopped = false) (hle : timer ≤ t.created)
    (hfree : ∀ n, t.Current held n → t.timerOf n ≠ timer) :
    Schedules t' held ∧ NoneRevived t held t' held := by
  have hother : ∀ n, t.Current held n → t'.timerOf n = t.timerOf n := fun n hn =>
    (hmakes.old (h.lt hp hn)).2
  refine ⟨⟨fun k n hk => ?_, fun n hn => ?_, fun n m hn hm heq => ?_⟩, ?_, fun n hlt hn => ?_⟩
  · rw [hmakes.entries, Function.update_apply] at hk
    rw [hmakes.created]
    split at hk
    · next heq =>
      cases hk
      exact ⟨heq.symm, by rw [hmakes.new.1, hnode], Nat.lt_succ_self _⟩
    · obtain ⟨hkey, hrunning, hlt⟩ := h.entry k n hk
      rw [HeapTimer.key, (hmakes.old hlt).1]
      exact ⟨hkey, hrunning, Nat.lt_succ_of_lt hlt⟩
  · rw [hmakes.created] at hn ⊢
    rw [hmakes.timerOf, Function.update_apply]
    split
    · omega
    · exact Nat.lt_succ_of_lt (h.timer n (by omega))
  · rcases hmakes.current h hp hn with rfl | hn
    · rcases hmakes.current h hp hm with rfl | hm
      · rfl
      · rw [hmakes.new.2, hother m hm] at heq
        exact absurd heq.symm (hfree m hm)
    · rcases hmakes.current h hp hm with rfl | hm
      · rw [hmakes.new.2, hother n hn] at heq
        exact absurd heq (hfree n hn)
      · rw [hother n hn, hother m hm] at heq
        exact h.one n m hn hm heq
  · rw [hmakes.created]
    exact Nat.le_succ _
  · exact (hmakes.current h hp hn).resolve_left (Nat.ne_of_lt hlt)

/-! ## Operations -/

theorem startTimer_makes (hp : InPlace t held) :
    Makes t (t.startTimer A now interval loop).1 (t.startedNode now interval loop) t.created :=
  ⟨rfl, MinHeap.insert_perm hp.make.heap, rfl, rfl, rfl⟩

theorem restartTimer_makes (hp : InPlace t held) (hk : t.timerNodes k = some m) :
    Makes (t.stop k m) (t.restartTimer A now k interval).1
      (HeapTimer.restartedNode now (t.nodes m) interval) (t.timerOf m) := by
  rw [HeapTimer.restartTimer, hk]
  exact ⟨rfl, MinHeap.insert_perm hp.stop.make.heap, rfl, rfl, rfl⟩

theorem handleTimeout_perm (hp : InPlace t (n :: held)) (hre : t.reinserts n rst = true) :
    (t.handleTimeout A n rst now).heapData.toList.Perm (n :: t.heapData.toList) := by
  rw [HeapTimer.handleTimeout, if_pos hre]
  exact MinHeap.insert_perm hp.setNode.heap

theorem Schedules.startTimer (h : Schedules t held) (hp : InPlace t held) :
    Schedules (t.startTimer A now interval loop).1 held ∧
      NoneRevived t held (t.startTimer A now interval loop).1 held :=
  h.made hp (startTimer_makes hp) rfl (Nat.le_refl _) fun n hn => Nat.ne_of_lt (h.timer n (h.lt hp hn))

/-- What is current when the node of an entry is stopped belongs to other timers. -/
theorem Schedules.timerOf_ne (h : Schedules t held) (hk : t.timerNodes k = some m)
    (hn : (t.stop k m).Current held n) : t.timerOf n ≠ t.timerOf m := by
  intro heq
  obtain ⟨hne, hcur⟩ := current_stop hn
  exact hne (h.one n m hcur ⟨(h.entry k m hk).2.1, .inr ⟨k, hk⟩⟩ heq)

theorem Schedules.stopTimer (h : Schedules t held) :
    Schedules (t.stopTimer k).1 held ∧ NoneRevived t held (t.stopTimer k).1 held ∧
      ∀ m n, t.timerNodes k = some m → n < t.created → t.timerOf n = t.timerOf m →
        ¬ (t.stopTimer k).1.Current held n := by
  rw [HeapTimer.stopTimer]
  cases hk : t.timerNodes k with
  | none => exact ⟨h, ⟨Nat.le_refl _, fun _ _ => id⟩, fun m n hm => (by cases hm)⟩
  | some m =>
    refine and_assoc.1 ⟨h.stop (h.entry k m hk).1 fun _ => id, fun m' n hm' _ heq hcur => ?_⟩
    cases hm'
    exact h.timerOf_ne hk hcur heq

theorem Schedules.restartTimer (h : Schedules t held) (hp : InPlace t held) :
    Schedules (t.restartTimer A now k interval).1 held ∧
      NoneRevived t held (t.restartTimer A now k interval).1 held ∧
      ∀ m n, t.timerNodes k = some m → n < t.created → t.timerOf n = t.timerOf m →
        ¬ (t.restartTimer A now k interval).1.Current held n := by
  cases hk : t.timerNodes k with
  | none =>
    rw [HeapTimer.restartTimer, hk]
    exact ⟨h, ⟨Nat.le_refl _, fun _ _ => id⟩, fun m n hm => (by cases hm)⟩
  | some m =>
    obtain ⟨hkey, -, hlt⟩ := h.entry k m hk
    have hst : Schedules (t.stop k m) held ∧ NoneRevived t held (t.stop k m) held :=
      h.stop hkey fun _ => id
    obtain ⟨hs', hnone'⟩ := hst.1.made hp.stop (@restartTimer_makes A t m now interval k held hp hk)
      rfl (Nat.le_of_lt (h.timer m hlt)) fun n hn => h.timerOf_ne hk hn
    refine ⟨hs', ⟨hnone'.created, fun n hn hcur => ?_⟩, fun m' n hm' hn heq hcur => ?_⟩
    · exact hst.2.current n hn (hnone'.current n hn hcur)
    · cases hm'
      exact h.timerOf_ne hk (hnone'.current n hn hcur) heq

theorem Schedules.drop (h : Schedules t (n :: held)) :
    Schedules t held ∧ NoneRevived t (n :: held) t held :=
  h.moved (fun _ => rfl) (fun _ => rfl) rfl rfl rfl (List.append_subset.2
    ⟨List.subset_append_left .., fun _ hm => List.mem_append_right _ (.tail _ hm)⟩)

theorem Schedules.handleTimeout (h : Schedules t (n :: held)) (hp : InPlace t (n :: held)) :
    Schedules (t.handleTimeout A n rst now) held ∧
      NoneRevived t (n :: held) (t.handleTimeout A n rst now) held := by
  rw [HeapTimer.handleTimeout]
  split
  · refine h.moved (fun m => ?_) (fun m => ?_) rfl rfl rfl fun m hm => ?_
    · exact setNode_congr (fun node => node.timerId.toUInt32) rfl
    · exact setNode_congr TimerNode.stopped rfl
    · exact List.perm_middle.symm.subset
        (((MinHeap.insert_perm hp.setNode.heap).append_right held).subset hm)
  · split
    · exact h.drop
    · exact h.stop rfl fun m hm => .tail _ hm

theorem Schedules.popBy (h : Schedules t held) (hp : InPlace t held) (hn : t.front = some n) :
    Schedules (t.popBy A) (n :: held) ∧ NoneRevived t held (t.popBy A) (n :: held) := by
  have hperm : ((t.popBy A).heapData.toList ++ n :: held).Perm (t.heapData.toList ++ held) :=
    List.perm_middle.trans ((hp.popBy_perm hn).append_right held)
  exact h.moved (fun _ => rfl) (fun _ => rfl) rfl rfl rfl fun m hm => hperm.subset hm

end

/-! ## Runs -/

variable {A : TimerHeaps} {s : TimerRun} {a : RunAction} {as : List RunAction} {n m : Nat}

theorem schedules_init : Schedules {} [] where
  entry _ _ h := by cases h
  timer _ h := absurd h (Nat.not_lt_zero _)
  one _ _ h := by
    rcases h.2 with hmem | ⟨k, hk⟩
    · cases hmem
    · cases hk

/-- **A step** keeps the schedules and revives none. -/
theorem Schedules.step (h : Schedules s.timer s.held) (ho : Ordered s)
    (ha : (timerRun A).enabled s a) :
    Schedules ((timerRun A).next s a).timer ((timerRun A).next s a).held ∧
      NoneRevived s.timer s.held ((timerRun A).next s a).timer ((timerRun A).next s a).held := by
  have hkept : Schedules s.timer s.held ∧ NoneRevived s.timer s.held s.timer s.held :=
    ⟨h, Nat.le_refl _, fun _ _ => id⟩
  cases a with
  | start now interval loop => exact h.startTimer ho.inPlace
  | stop id => exact ⟨h.stopTimer.1, h.stopTimer.2.1⟩
  | restart now id interval =>
    exact ⟨(h.restartTimer ho.inPlace).1, (h.restartTimer ho.inPlace).2.1⟩
  | timerLoop now => exact hkept
  | round now =>
    obtain ⟨n, hn⟩ := Option.ne_none_iff_exists'.1 ha
    have hpop := h.popBy (A := A) ho.inPlace (ho.due hn).1
    rw [ho.held_of_due hn] at hpop ⊢
    simp only [timerRun, hn]
    split
    · have hdrop := hpop.1.drop
      refine ⟨hdrop.1, hpop.2.created, fun m hm hcur => ?_⟩
      exact hpop.2.current m hm (hdrop.2.current m hm hcur)
    · exact hpop
  | handled rst now now' =>
    obtain ⟨n, hn⟩ := Option.ne_none_iff_exists'.1 ha
    have hp := ho.inPlace
    rw [held_of_inHand hn] at h hp ⊢
    simp only [timerRun, hn]
    exact h.handleTimeout hp
  | finish now =>
    obtain ⟨hnext, hheld⟩ := ho.next_finish ha A now
    rw [hnext, TimerRun.held, ← hheld]
    exact hkept
  | elsewhere => exact h.moved (fun _ => rfl) (fun _ => rfl) rfl rfl rfl fun _ => id

theorem schedules_of_runs (h : (timerRun A).Runs {} as) :
    Ordered ((timerRun A).exec {} as) ∧
      Schedules ((timerRun A).exec {} as).timer ((timerRun A).exec {} as).held :=
  h.invariant (I := fun s => Ordered s ∧ Schedules s.timer s.held)
    (fun _ _ ha hs => ⟨hs.1.step ha, (hs.2.step hs.1 ha).1⟩) ⟨ordered_init, schedules_init⟩

/-- What is not current never is. -/
theorem not_current_of_runs (h : (timerRun A).Runs s as) (ho : Ordered s)
    (hs : Schedules s.timer s.held) (hlt : n < s.timer.created)
    (hcur : ¬ s.timer.Current s.held n) :
    ¬ ((timerRun A).exec s as).timer.Current ((timerRun A).exec s as).held n := by
  induction as generalizing s with
  | nil => exact hcur
  | cons a as ih =>
    obtain ⟨hs', hnone⟩ := hs.step ho h.1
    exact ih h.2 (ho.step h.1) hs' (Nat.lt_of_lt_of_le hlt hnone.created) fun hn =>
      hcur (hnone.current n hlt hn)

/-! ## Deliveries -/

inductive ScheduleEvent
  | scheduled (n : Nat)
  | delivered (n : Nat)
  /-- A node was stopped when it expired. -/
  | dropped (n : Nat)
  deriving DecidableEq, Repr

/-- What a step does with expiries. -/
def scheduleEvents (s : TimerRun) : RunAction → List ScheduleEvent
  | .start .. => [.scheduled s.timer.created]
  | .restart _ id _ => if (s.timer.timerNodes id).isSome then [.scheduled s.timer.created] else []
  | .round _ =>
    match s.due with
    | some n => [if (s.timer.nodes n).stopped then .dropped n else .delivered n]
    | none => []
  | .handled rst _ _ =>
    match s.inHand with
    | some n => if s.timer.reinserts n rst then [.scheduled n] else []
    | none => []
  | .stop _ | .timerLoop _ | .finish _ | .elsewhere => []

def recordedRun (A : TimerHeaps) : Machine (TimerRun × List ScheduleEvent) RunAction :=
  (timerRun A).record fun s a evs => evs ++ scheduleEvents s a

/-- A call that found the timer under `id`, and so returns true. -/
def TimerRun.Ends (A : TimerHeaps) (s : TimerRun) (id : UInt32) : RunAction → Prop
  | .stop k => k = id ∧ (s.timer.stopTimer k).2 = true
  | .restart now k interval => k = id ∧ (s.timer.restartTimer A now k interval).2 = true
  | _ => False

/-- `timer_loop` is about to run the handler of the node. -/
def TimerRun.Delivers (s : TimerRun) (n : Nat) : Prop :=
  s.due = some n ∧ (s.timer.nodes n).stopped = false

/-- At most one node of a timer is in the heap and not stopped; each time that a node was scheduled
was delivered or dropped once, unless it is still in the heap; and no node that a timer has when a
call ends its schedule is delivered in any continuation. -/
structure OneSchedule (A : TimerHeaps) (s : TimerRun) (evs : List ScheduleEvent) : Prop where
  live : ∀ n ∈ s.timer.heapData, ∀ m ∈ s.timer.heapData,
    (s.timer.nodes n).stopped = false → (s.timer.nodes m).stopped = false →
      s.timer.timerOf n = s.timer.timerOf m → n = m
  once : s.timer.heapData.toList.Nodup
  accounted : ∀ n, evs.count (.scheduled n) = s.timer.heapData.toList.count n +
    evs.count (.delivered n) + evs.count (.dropped n)
  silenced : ∀ id a, (timerRun A).enabled s a → s.Ends A id a →
    ∃ m, s.timer.timerNodes id = some m ∧ ∀ bs, (timerRun A).Runs ((timerRun A).next s a) bs →
      ∀ n < s.timer.created, s.timer.timerOf n = s.timer.timerOf m →
        ¬ ((timerRun A).exec ((timerRun A).next s a) bs).Delivers n

/-- A step puts into the heap what it schedules and takes out what it delivers or drops. -/
theorem Ordered.count_next (ho : Ordered s) (ha : (timerRun A).enabled s a) (n : Nat) :
    ((timerRun A).next s a).timer.heapData.toList.count n +
        (scheduleEvents s a).count (.delivered n) + (scheduleEvents s a).count (.dropped n) =
      s.timer.heapData.toList.count n + (scheduleEvents s a).count (.scheduled n) := by
  have hp := ho.inPlace
  cases a with
  | start now interval loop =>
    have hcount := (@startTimer_makes A s.timer now interval loop s.held hp).heap.count_eq n
    simp only [timerRun, scheduleEvents, hcount, List.count_cons, List.count_nil, beq_iff_eq,
      reduceCtorEq, ScheduleEvent.scheduled.injEq, if_false]
    omega
  | restart now id interval =>
    cases hk : s.timer.timerNodes id with
    | none =>
      simp only [timerRun, scheduleEvents, HeapTimer.restartTimer, hk]
      rfl
    | some m =>
      have hcount : _ = (s.timer.created :: s.timer.heapData.toList).count n :=
        (@restartTimer_makes A s.timer m now interval id s.held hp hk).heap.count_eq n
      simp only [timerRun, scheduleEvents, hcount, hk, Option.isSome_some, if_true, List.count_cons,
        List.count_nil, beq_iff_eq, reduceCtorEq, ScheduleEvent.scheduled.injEq, if_false]
      omega
  | stop id =>
    simp only [timerRun, scheduleEvents, HeapTimer.stopTimer]
    split <;> rfl
  | timerLoop now | elsewhere => rfl
  | round now =>
    obtain ⟨m, hm⟩ := Option.ne_none_iff_exists'.1 ha
    have hcount := (hp.popBy_perm (A := A) (ho.due hm).1).count_eq n
    rw [List.count_cons] at hcount
    have hstopped : (s.timer.popBy A).nodes = s.timer.nodes := rfl
    simp only [timerRun, scheduleEvents, hm, hstopped]
    split
    · simp only [List.count_singleton, beq_iff_eq, reduceCtorEq, ScheduleEvent.dropped.injEq,
        if_false] at hcount ⊢
      omega
    · simp only [List.count_singleton, beq_iff_eq, reduceCtorEq, ScheduleEvent.delivered.injEq,
        if_false] at hcount ⊢
      omega
  | handled rst now now' =>
    obtain ⟨m, hm⟩ := Option.ne_none_iff_exists'.1 ha
    rw [held_of_inHand hm] at hp
    simp only [timerRun, scheduleEvents, hm]
    split
    · next hre =>
      have hcount := (@handleTimeout_perm A s.timer m now rst _ hp hre).count_eq n
      simp only [hcount, List.count_cons, List.count_nil, beq_iff_eq, reduceCtorEq,
        ScheduleEvent.scheduled.injEq, if_false]
      omega
    · next hre =>
      rw [HeapTimer.handleTimeout, if_neg hre]
      split <;> rfl
  | finish now =>
    simp only [timerRun, scheduleEvents]
    split <;> rfl

theorem accounted_of_runs (h : (timerRun A).Runs {} as) (n : Nat) :
    ((recordedRun A).exec ({}, []) as).2.count (.scheduled n) =
      ((recordedRun A).exec ({}, []) as).1.timer.heapData.toList.count n +
        ((recordedRun A).exec ({}, []) as).2.count (.delivered n) +
          ((recordedRun A).exec ({}, []) as).2.count (.dropped n) := by
  have hruns : (recordedRun A).Runs ({}, []) as := h.record
  refine (hruns.invariant (I := fun t => Ordered t.1 ∧ t.2.count (.scheduled n) =
    t.1.timer.heapData.toList.count n + t.2.count (.delivered n) + t.2.count (.dropped n))
    (fun t a ha ht => ⟨ht.1.step ha, ?_⟩) ⟨ordered_init, rfl⟩).2
  have hcount := ht.1.count_next (A := A) ha n
  have hold := ht.2
  simp only [recordedRun, Machine.record, List.count_append] at hcount ⊢
  omega

/-- A call that ends a schedule leaves the timer with no current node but a new one. -/
theorem Schedules.not_current_of_ends (h : Schedules s.timer s.held) (hp : InPlace s.timer s.held)
    {id : UInt32} (hends : s.Ends A id a) :
    ∃ m, s.timer.timerNodes id = some m ∧
      ∀ n < s.timer.created, s.timer.timerOf n = s.timer.timerOf m →
        ¬ ((timerRun A).next s a).timer.Current ((timerRun A).next s a).held n := by
  cases a with
  | stop k =>
    obtain ⟨rfl, htrue⟩ := hends
    cases hk : s.timer.timerNodes k with
    | none =>
      rw [HeapTimer.stopTimer, hk] at htrue
      cases htrue
    | some m => exact ⟨m, rfl, fun n hn heq => h.stopTimer.2.2 m n hk hn heq⟩
  | restart now k interval =>
    obtain ⟨rfl, htrue⟩ := hends
    cases hk : s.timer.timerNodes k with
    | none =>
      rw [HeapTimer.restartTimer, hk] at htrue
      cases htrue
    | some m => exact ⟨m, rfl, fun n hn heq => (h.restartTimer hp).2.2 m n hk hn heq⟩
  | _ => exact hends.elim

/-- **At most one live schedule for each timer**, in every run. -/
theorem oneSchedule_of_runs (h : (timerRun A).Runs {} as) :
    OneSchedule A ((recordedRun A).exec ({}, []) as).1 ((recordedRun A).exec ({}, []) as).2 := by
  have hexec : ((recordedRun A).exec ({}, []) as).1 = (timerRun A).exec {} as :=
    Machine.exec_record_fst
  have haccounted := accounted_of_runs h
  obtain ⟨ho, hs⟩ := schedules_of_runs h
  rw [hexec] at haccounted ⊢
  refine ⟨fun n hn m hm hrun hrun' => ?_, ?_, haccounted, fun id a ha hends => ?_⟩
  · refine hs.one n m ⟨hrun, .inl ?_⟩ ⟨hrun', .inl ?_⟩
    · exact List.mem_append_left _ (Array.mem_toList_iff.2 hn)
    · exact List.mem_append_left _ (Array.mem_toList_iff.2 hm)
  · exact (List.nodup_append.1 ho.inPlace.once).1
  · obtain ⟨m, hk, hgone⟩ := hs.not_current_of_ends ho.inPlace hends
    obtain ⟨hs', hnone⟩ := hs.step ho ha
    refine ⟨m, hk, fun bs hbs n hn heq hdelivers => ?_⟩
    have hlt := Nat.lt_of_lt_of_le hn hnone.created
    refine not_current_of_runs hbs (ho.step ha) hs' hlt (hgone n hn heq) ⟨hdelivers.2, .inl ?_⟩
    have hfront := (((ho.step ha).runs hbs).due hdelivers.1).1
    exact List.mem_append_left _ (Array.mem_toList_iff.2 (Array.mem_of_getElem? hfront))

/-- A handler restarts its own timer and returns true. -/
theorem oneSchedule_restarted :
    OneSchedule .sifting
      ((recordedRun .sifting).exec ({}, []) [.start 0 5 true, .timerLoop 5, .round 5,
        .restart 5 1024 2, .handled true 6 7, .round 7]).1
      ((recordedRun .sifting).exec ({}, []) [.start 0 5 true, .timerLoop 5, .round 5,
        .restart 5 1024 2, .handled true 6 7, .round 7]).2 :=
  oneSchedule_of_runs (by decide)

end SNet.Utils
