import SNet.Library.Registry
import SNet.Utils.TimerLoop

/-!
# Timer ids

The entries of `timer_nodes` are to be the timers that can still fire, under the ids that
`start_timer` returned. `restart_timer` enters the new node under 0 (`restarted_under_zero`), a
one-shot timer whose handler returns true leaves its entry behind, a node whose handler returned
false may be entered after that, and keys are truncated ids. `idsValid_of_steps` says that nothing
else, besides a lost node, takes the entries out of step.
-/

namespace SNet.Utils

variable {s s' : HeapTimer} {a : TimerAction} {as : List TimerAction} {n m t : Nat} {k : UInt32}
  {pc : CallPc}

/-! ## The property and its condition -/

/-- A node that will fire: it is in the heap and not stopped. -/
def HeapTimer.Live (s : HeapTimer) (n : Nat) : Prop :=
  n ∈ s.heapData ∧ (s.nodes n).stopped = false

/-- What `start_timer` returned for the timer of a node. -/
def HeapTimer.idOf (s : HeapTimer) (n : Nat) : Option UInt32 := s.returned (s.timerOf n)

/-- No call is in progress. -/
structure Quiescent (s : HeapTimer) : Prop where
  loop : s.loopPc = .idle
  calls : ∀ t, s.calls t = .idle

/-- The entries are the nodes that will fire, each under the id of its timer, and every timer that
will fire has an id and one node in the heap. So `stop_timer` returns true for the ids of these, and
then none of them will fire. -/
structure IdsValid (s : HeapTimer) : Prop where
  entries : Registry.Indexes s.timerNodes s.Live s.idOf
  named : ∀ n, s.Live n → (s.idOf n).isSome
  once : ∀ n, s.heapData.toList.count n ≤ 1
  stops : ∀ k, (s.stopTimer k).2 = true ↔ ∃ n, s.Live n ∧ s.idOf n = some k
  silenced : ∀ k n, (s.stopTimer k).1.Live n → s.idOf n ≠ some k

/-- `restart_timer` finds nothing, or an entry under 0; `start_timer` enters a node that is not
stopped yet, under a key that is free; a handler returns true only for a timer that loops or was
stopped, and false only if the entry under the truncated `timer_id` is the node's own, if there is
one; and no node overtakes the one that `timer_loop` has read. -/
def KeepsIds (s : HeapTimer) : TimerAction → Prop
  | .restart _ _ k _ => s.timerNodes k = none ∨ k = 0
  | .publish _ n => (s.nodes n).stopped = false ∧ s.timerNodes (s.key n) = none
  | .handled n true _ => (s.nodes n).loop = true ∨ (s.nodes n).stopped = true
  | .handled n false _ => s.timerNodes (s.key n) = none ∨ s.timerNodes (s.key n) = some n
  | .insertStarted _ n | .insertRestarted _ n => s.overtakes n = false
  | .start .. | .stop _ | .store .. | .top _ | .pop _ | .check _ | .reinsert _ | .elsewhere => True

instance decidableKeepsIds (s : HeapTimer) : ∀ a, Decidable (KeepsIds s a)
  | .restart .. | .handled _ true _ | .handled _ false _ => inferInstanceAs (Decidable (_ ∨ _))
  | .publish .. => inferInstanceAs (Decidable (_ ∧ _))
  | .insertStarted .. | .insertRestarted .. => inferInstanceAs (Decidable (_ = _))
  | .start .. | .stop _ | .store .. | .top _ | .pop _ | .check _ | .reinsert _ | .elsewhere =>
    inferInstanceAs (Decidable True)

theorem KeepsIds.noneOvertakes (h : KeepsIds s a) : NoneOvertakes s a := by
  cases a with
  | insertStarted t n | insertRestarted t n => exact h
  | _ => trivial

/-! ## Entries while calls are in progress -/

/-- The node is in the heap or `timer_loop` has it. -/
def HeapTimer.Active (s : HeapTimer) (n : Nat) : Prop := n ∈ s.heapData ∨ s.loopPc.Holds n

/-- The node is to be entered. -/
def CallPc.Pending (n : Nat) : CallPc → Prop
  | .publishing m | .storing m => n = m
  | .idle | .inserting _ | .restarting _ => False

/-- A node of a restarted timer, whose id can only be 0. -/
structure Restarted (s : HeapTimer) (n : Nat) : Prop where
  running : (s.nodes n).stopped = false
  key : s.key n = 0
  idOf : s.idOf n = some 0
  free : s.timerNodes 0 = none
  locked : s.locked = true
  created : n < s.created

/-- What is known of the node that a call is about. -/
def CallOk (s : HeapTimer) : CallPc → Prop
  | .idle => True
  | .inserting n => (s.nodes n).stopped = false ∧ s.timerOf n = n ∧ n < s.created
  | .publishing n => ((s.nodes n).stopped = true ∨ s.Active n) ∧ s.timerOf n = n ∧ n < s.created
  | .restarting n => Restarted s n
  | .storing n => Restarted s n ∧ s.Active n

def CallPc.locks : CallPc → Bool
  | .restarting _ | .storing _ => true
  | .idle | .inserting _ | .publishing _ => false

/-- The entries are nodes that are active and not stopped; a node that is active and not stopped is
entered, or about to be. -/
structure Listed (s : HeapTimer) : Prop where
  placed : Placed s
  entry : ∀ k n, s.timerNodes k = some n →
    s.key n = k ∧ s.idOf n = some k ∧ (s.nodes n).stopped = false ∧ s.Active n
  active : ∀ n, s.Active n → (s.nodes n).stopped = false →
    s.timerNodes (s.key n) = some n ∨ ∃ t, (s.calls t).Pending n
  returned : ∀ n k, s.returned n = some k → s.key n = k ∧ n < s.created
  calls : ∀ t, CallOk s (s.calls t)
  alone : ∀ t u, (s.calls t).locks = true → (s.calls u).locks = true → u = t

theorem listed_init : Listed {} where
  placed := placed_init
  entry _ _ h := by cases h
  active n h := by
    rcases h with h | h
    · exact absurd h (Array.not_mem_empty n)
    · exact h.elim
  returned _ _ h := by cases h
  calls _ := trivial
  alone _ _ h := by cases h

/-- What is not stopped after a stop. -/
theorem stopped_stop : ((s.stop k m).nodes n).stopped = false ↔
    n ≠ m ∧ (s.nodes n).stopped = false := by
  rw [HeapTimer.stop, HeapTimer.setNode]
  dsimp only
  rw [Function.update_apply]
  split
  · next h => simp [h]
  · next h => simp [h]

/-- What a new value of a node has in common with the old one is the same for all nodes. -/
theorem setNode_congr {β : Type} (f : TimerNode → β) {node : TimerNode}
    (h : f node = f (s.nodes n)) : f ((s.setNode n node).nodes m) = f (s.nodes m) := by
  rw [HeapTimer.setNode]
  dsimp only
  rw [Function.update_apply]
  split
  · next heq =>
    subst heq
    exact h
  · rfl

theorem nodes_make (s : HeapTimer) (node : TimerNode) (timer : Nat) :
    (s.make node timer).nodes s.created = node := Function.update_self ..

theorem timerOf_make (s : HeapTimer) (node : TimerNode) (timer : Nat) :
    (s.make node timer).timerOf s.created = timer := Function.update_self ..

/-- **Between calls** the entries are the nodes that will fire. -/
theorem Listed.idsValid (h : Listed s) (hq : Quiescent s) : IdsValid s := by
  have hactive : ∀ n, s.Active n → n ∈ s.heapData := by
    intro n hn
    refine hn.elim id fun hholds => ?_
    rw [hq.loop] at hholds
    exact hholds.elim
  have hlisted : ∀ n, s.Live n → s.timerNodes (s.key n) = some n := by
    intro n hn
    refine (h.active n (.inl hn.1) hn.2).elim id ?_
    rintro ⟨t, ht⟩
    rw [hq.calls t] at ht
    exact ht.elim
  have hentries : Registry.Indexes s.timerNodes s.Live s.idOf := by
    intro k n
    constructor
    · intro hk
      obtain ⟨-, hid, hrunning, hact⟩ := h.entry k n hk
      exact ⟨⟨hactive n hact, hrunning⟩, hid⟩
    · rintro ⟨hlive, hid⟩
      have hk := hlisted n hlive
      cases hid.symm.trans (h.entry _ n hk).2.1
      exact hk
  refine ⟨hentries, fun n hn => ?_, h.placed.once, fun k => ?_, fun k n hn hid => ?_⟩
  · rw [(h.entry _ n (hlisted n hn)).2.1]
    rfl
  · rw [HeapTimer.stopTimer]
    cases hk : s.timerNodes k with
    | none =>
      refine iff_of_false Bool.false_ne_true ?_
      rintro ⟨n, hn⟩
      cases hk.symm.trans ((hentries k n).2 hn)
    | some n => exact iff_of_true rfl ⟨n, (hentries k n).1 hk⟩
  · rw [HeapTimer.stopTimer] at hn
    cases hk : s.timerNodes k with
    | none =>
      rw [hk] at hn
      cases hk.symm.trans ((hentries k n).2 ⟨hn, hid⟩)
    | some m =>
      rw [hk] at hn
      obtain ⟨hne, hrunning⟩ := stopped_stop.1 hn.2
      have hn' := (hentries k n).2 ⟨⟨hn.1, hrunning⟩, hid⟩
      exact hne (Option.some.inj (hn'.symm.trans hk))

/-! ## Steps -/

theorem Listed.lt_created (h : Listed s) (hn : s.Active n) : n < s.created :=
  h.placed.created n (hn.imp_right .inl)

/-- While `timer_mutex` is free no thread is in `restart_timer`. -/
theorem Listed.not_locks (h : Listed s) (hfree : s.locked = false) : (s.calls t).locks = false := by
  have hok := h.calls t
  cases hpc : s.calls t with
  | restarting n =>
    rw [hpc] at hok
    cases hfree.symm.trans hok.locked
  | storing n =>
    rw [hpc] at hok
    cases hfree.symm.trans hok.1.locked
  | _ => rfl

/-- A change of one thread leaves at most one in `restart_timer`. -/
theorem alone_update {calls : Nat → CallPc}
    (halone : ∀ t u, (calls t).locks = true → (calls u).locks = true → u = t)
    (hpc : pc.locks = true → ∀ u, (calls u).locks = true → u = t) (u v : Nat)
    (hu : (Function.update calls t pc u).locks = true)
    (hv : (Function.update calls t pc v).locks = true) : v = u := by
  rw [Function.update_apply] at hu hv
  split at hu
  · next hut =>
    split at hv
    · next hvt => exact hvt.trans hut.symm
    · exact (hpc hu v hv).trans hut.symm
  · split at hv
    · next hvt => exact hvt.trans (hpc hv u hu).symm
    · exact halone u v hu hv

/-- What holds of the calls after a change of one thread. -/
theorem calls_update {calls : Nat → CallPc} {P : CallPc → Prop} (hpc : P pc)
    (hother : ∀ u, u ≠ t → P (calls u)) (u : Nat) : P (Function.update calls t pc u) := by
  rw [Function.update_apply]
  split
  · exact hpc
  · next hut => exact hother u hut

theorem pending_update {calls : Nat → CallPc} {u : Nat} (hold : ∀ m, ¬ (calls t).Pending m)
    (hm : (calls u).Pending m) : (Function.update calls t pc u).Pending m := by
  rw [Function.update_of_ne]
  · exact hm
  · rintro rfl
    exact hold m hm

/-- Two states with the same nodes, as far as they were made, and the same entries. -/
structure SameIds (s s' : HeapTimer) : Prop where
  key : ∀ n < s.created, s'.key n = s.key n
  stopped : ∀ n < s.created, (s'.nodes n).stopped = (s.nodes n).stopped
  timerOf : ∀ n < s.created, s'.timerOf n = s.timerOf n
  returned : s'.returned = s.returned
  timerNodes : s'.timerNodes = s.timerNodes
  locked : s.locked = true → s'.locked = true
  created : s.created ≤ s'.created

theorem Restarted.frame (h : Restarted s n) (hs : SameIds s s') : Restarted s' n where
  running := (hs.stopped n h.created).trans h.running
  key := (hs.key n h.created).trans h.key
  idOf := by
    rw [HeapTimer.idOf, hs.returned, hs.timerOf n h.created]
    exact h.idOf
  free := by
    rw [hs.timerNodes]
    exact h.free
  locked := hs.locked h.locked
  created := Nat.lt_of_lt_of_le h.created hs.created

theorem CallOk.frame (h : CallOk s pc) (hs : SameIds s s')
    (hactive : ∀ n, (s.nodes n).stopped = false → s.Active n → s'.Active n) : CallOk s' pc := by
  cases pc with
  | idle => trivial
  | inserting n =>
    obtain ⟨hrunning, htimer, hlt⟩ := h
    exact ⟨(hs.stopped n hlt).trans hrunning, (hs.timerOf n hlt).trans htimer,
      Nat.lt_of_lt_of_le hlt hs.created⟩
  | publishing n =>
    obtain ⟨hact, htimer, hlt⟩ := h
    refine ⟨?_, (hs.timerOf n hlt).trans htimer, Nat.lt_of_lt_of_le hlt hs.created⟩
    rw [hs.stopped n hlt]
    cases hstopped : (s.nodes n).stopped with
    | true => exact .inl rfl
    | false => exact .inr (hactive n hstopped (hact.resolve_left (by rw [hstopped]; decide)))
  | restarting n => exact Restarted.frame h hs
  | storing n => exact ⟨h.1.frame hs, hactive n h.1.running h.2⟩

/-- A step that leaves the entries alone. -/
theorem Listed.frame (h : Listed s) (hs : SameIds s s') (hp : Placed s')
    (hentry : ∀ n, (s.nodes n).stopped = false → s.Active n → s'.Active n)
    (hactive : ∀ n, s'.Active n → (s'.nodes n).stopped = false →
      s.Active n ∨ ∃ t, (s'.calls t).Pending n)
    (hpending : ∀ n t, (s.calls t).Pending n → (s'.calls t).Pending n)
    (hcalls : ∀ t, CallOk s' (s'.calls t))
    (halone : ∀ t u, (s'.calls t).locks = true → (s'.calls u).locks = true → u = t) : Listed s' where
  placed := hp
  entry k n hk := by
    rw [hs.timerNodes] at hk
    obtain ⟨hkey, hid, hrunning, hact⟩ := h.entry k n hk
    have hlt := h.lt_created hact
    refine ⟨(hs.key n hlt).trans hkey, ?_, (hs.stopped n hlt).trans hrunning, hentry n hrunning hact⟩
    rw [HeapTimer.idOf, hs.returned, hs.timerOf n hlt]
    exact hid
  active n hn hrunning := by
    refine (hactive n hn hrunning).elim (fun hact => ?_) .inr
    have hlt := h.lt_created hact
    rw [hs.timerNodes, hs.key n hlt]
    rw [hs.stopped n hlt] at hrunning
    exact (h.active n hact hrunning).imp_right fun ⟨t, ht⟩ => ⟨t, hpending n t ht⟩
  returned n k hk := by
    rw [hs.returned] at hk
    obtain ⟨hkey, hlt⟩ := h.returned n k hk
    exact ⟨(hs.key n hlt).trans hkey, Nat.lt_of_lt_of_le hlt hs.created⟩
  calls := hcalls
  alone := halone

/-- A step of `timer_loop` that moves nodes, and loses only one that is stopped. -/
theorem Listed.moved (h : Listed s) (hs : SameIds s s') (hp : Placed s') (hcalls : s'.calls = s.calls)
    (hcreated : s'.created = s.created)
    (hactive : ∀ n, (s.nodes n).stopped = false → (s'.Active n ↔ s.Active n)) : Listed s' := by
  refine h.frame hs hp (fun n hn => (hactive n hn).2) (fun n hn hrunning => ?_) (fun n t => ?_)
    (fun t => ?_) ?_
  · have hlt := hp.created n (hn.imp_right .inl)
    rw [hcreated] at hlt
    exact .inl ((hactive n ((hs.stopped n hlt).symm.trans hrunning)).1 hn)
  · rw [hcalls]
    exact id
  · rw [hcalls]
    exact (h.calls t).frame hs fun n hn => (hactive n hn).2
  · rw [hcalls]
    exact h.alone

/-- A thread inserts the node that it made; the node is still to be entered. -/
theorem Listed.insertMade (h : Listed s) (hp : Placed ((s.insert n).setCall t pc))
    (hpc : pc.Pending n) (hok : CallOk ((s.insert n).setCall t pc) pc)
    (hold : ∀ m, ¬ (s.calls t).Pending m)
    (hlocks : pc.locks = true → (s.calls t).locks = true) :
    Listed ((s.insert n).setCall t pc) := by
  have hs : SameIds s ((s.insert n).setCall t pc) :=
    ⟨fun _ _ => rfl, fun _ _ => rfl, fun _ _ => rfl, rfl, rfl, id, Nat.le_refl _⟩
  have hgrow : ∀ m, s.Active m → ((s.insert n).setCall t pc).Active m := fun m hm =>
    hm.imp_left fun hm => mem_insert.2 (.inr hm)
  have hself : ((s.insert n).setCall t pc).calls t = pc := Function.update_self ..
  refine h.frame hs hp (fun m _ => hgrow m) (fun m hm _ => ?_) (fun m u => pending_update hold)
    (calls_update hok fun u _ => (h.calls u).frame hs fun m _ => hgrow m)
    (alone_update h.alone fun hl u hu => h.alone t u (hlocks hl) hu)
  rcases hm with hm | hm
  · rcases mem_insert.1 hm with rfl | hm
    · exact .inr ⟨t, hself.symm ▸ hpc⟩
    · exact .inl (.inl hm)
  · exact .inl (.inr hm)

/-- A thread makes a node. -/
theorem Listed.made {node : TimerNode} {timer : Nat} {i : UInt64} {l : Bool} (h : Listed s)
    (hp : Placed { (s.make node timer).setCall t pc with timerIndex := i, locked := l })
    (hok : CallOk { (s.make node timer).setCall t pc with timerIndex := i, locked := l } pc)
    (ht : s.calls t = .idle) (hl : s.locked = true → l = true)
    (hlocks : pc.locks = true → s.locked = false) :
    Listed { (s.make node timer).setCall t pc with timerIndex := i, locked := l } := by
  have hnode : ∀ m < s.created, (s.make node timer).nodes m = s.nodes m :=
    fun m hm => Function.update_of_ne (Nat.ne_of_lt hm) ..
  have hs : SameIds s { (s.make node timer).setCall t pc with timerIndex := i, locked := l } := by
    refine ⟨fun m hm => ?_, fun m hm => ?_, fun m hm => ?_, rfl, rfl, hl, Nat.le_succ _⟩
    · exact congrArg (fun node : TimerNode => node.timerId.toUInt32) (hnode m hm)
    · exact congrArg (fun node : TimerNode => node.stopped) (hnode m hm)
    · exact Function.update_of_ne (Nat.ne_of_lt hm) ..
  refine h.frame hs hp (fun _ _ hm => hm) (fun _ hm _ => .inl hm)
    (fun m u => pending_update (by rw [ht]; exact fun _ => id))
    (calls_update hok fun u _ => (h.calls u).frame hs fun _ _ hm => hm)
    (alone_update h.alone fun hpc u hu => ?_)
  exact absurd ((h.not_locks (hlocks hpc)).symm.trans hu) Bool.false_ne_true

/-- Threads that are at nodes of their own do not notice that a node is stopped. -/
theorem CallOk.stop {l : LoopPc} (h : CallOk s pc) (hlocks : pc.locks = false)
    (hmade : pc ≠ .inserting n)
    (hactive : ∀ m, m ≠ n → s.Active m → HeapTimer.Active { s.stop k n with loopPc := l } m) :
    CallOk { s.stop k n with loopPc := l } pc := by
  cases pc with
  | idle => trivial
  | inserting m =>
    have hmn : m ≠ n := fun heq => hmade (congrArg _ heq)
    exact ⟨(stopped_stop (k := k)).2 ⟨hmn, h.1⟩, h.2⟩
  | publishing m =>
    refine ⟨?_, h.2⟩
    cases hstopped : ((s.stop k n).nodes m).stopped with
    | true => exact .inl rfl
    | false =>
      obtain ⟨hmn, hrunning⟩ := stopped_stop.1 hstopped
      refine .inr (hactive m hmn (h.1.resolve_left ?_))
      rw [hrunning]
      decide
  | restarting m => cases hlocks
  | storing m => cases hlocks

/-- A node is stopped, and the entry that it may have is taken out. -/
theorem Listed.stop {l : LoopPc} (h : Listed s) (hp : Placed { s.stop k n with loopPc := l })
    (hfree : s.locked = false) (hact : s.Active n) (hkey : s.key n = k)
    (hmine : s.timerNodes k = none ∨ s.timerNodes k = some n)
    (hholds : ∀ m, m ≠ n → (l.Holds m ↔ s.loopPc.Holds m)) :
    Listed { s.stop k n with loopPc := l } := by
  have hkeys : ∀ m, (s.stop k n).key m = s.key m := fun m =>
    setNode_congr (fun node => node.timerId.toUInt32) rfl
  have hstill : ∀ m, m ≠ n → (s.nodes m).stopped = false → ((s.stop k n).nodes m).stopped = false :=
    fun m hm hrunning => stopped_stop.2 ⟨hm, hrunning⟩
  have hactive : ∀ m, m ≠ n → (HeapTimer.Active { s.stop k n with loopPc := l } m ↔ s.Active m) :=
    fun m hm => or_congr Iff.rfl (hholds m hm)
  refine ⟨hp, fun k' m hk' => ?_, fun m hm hrunning => ?_, fun m k' hk' => ?_, fun u => ?_, h.alone⟩
  · have hk' : Function.update s.timerNodes k none k' = some m := hk'
    have hkk : k' ≠ k := by
      rintro rfl
      rw [Function.update_self] at hk'
      cases hk'
    rw [Function.update_of_ne hkk] at hk'
    obtain ⟨hkm, hid, hrunning, hact'⟩ := h.entry k' m hk'
    have hmn : m ≠ n := by
      rintro rfl
      exact hkk (hkm.symm.trans hkey)
    exact ⟨(hkeys m).trans hkm, hid, hstill m hmn hrunning, (hactive m hmn).2 hact'⟩
  · have hrunning : ((s.stop k n).nodes m).stopped = false := hrunning
    obtain ⟨hmn, hrunning⟩ := stopped_stop.1 hrunning
    refine (h.active m ((hactive m hmn).1 hm) hrunning).imp_left fun hentry => ?_
    have hkk : s.key m ≠ k := by
      intro heq
      rw [heq] at hentry
      rcases hmine with hnone | hsome
      · cases hnone.symm.trans hentry
      · exact hmn (Option.some.inj (hentry.symm.trans hsome))
    exact (congrArg _ (hkeys m)).trans ((Function.update_of_ne hkk ..).trans hentry)
  · exact ⟨(hkeys m).trans (h.returned m k' hk').1, (h.returned m k' hk').2⟩
  · refine (h.calls u).stop (h.not_locks hfree) (fun hpc => ?_) fun m hm => (hactive m hm).2
    obtain ⟨hmem, hloop, -⟩ := h.placed.fresh u n (by rw [hpc]; rfl)
    exact hact.elim hmem hloop

/-- A thread enters its node, under a key that is free. -/
theorem Listed.entered {r : Nat → Option UInt32} {l : Bool} (h : Listed s)
    (hp : Placed { s.setCall t .idle with
      timerNodes := Function.update s.timerNodes (s.key n) (some n), returned := r, locked := l })
    (ht : ∀ m, (s.calls t).Pending m → m = n) (hfree : s.timerNodes (s.key n) = none)
    (hrunning : (s.nodes n).stopped = false) (hact : s.Active n)
    (hids : ∀ m k, s.idOf m = some k → r (s.timerOf m) = some k)
    (hself : r (s.timerOf n) = some (s.key n))
    (hreturned : ∀ m k, r m = some k → s.key m = k ∧ m < s.created)
    (hother : ∀ u, u ≠ t → (s.calls u).locks = false) :
    Listed { s.setCall t .idle with
      timerNodes := Function.update s.timerNodes (s.key n) (some n), returned := r, locked := l } := by
  refine ⟨hp, fun k m hk => ?_, fun m hm hrun => ?_, hreturned, calls_update trivial fun u hut => ?_,
    alone_update h.alone fun hl => by cases hl⟩
  · have hk : Function.update s.timerNodes (s.key n) (some n) k = some m := hk
    rw [Function.update_apply] at hk
    split at hk
    · next heq =>
      cases hk
      exact ⟨heq.symm, heq ▸ hself, hrunning, hact⟩
    · obtain ⟨hkey, hid, hrest⟩ := h.entry k m hk
      exact ⟨hkey, hids m k hid, hrest⟩
  · change Function.update s.timerNodes (s.key n) (some n) (s.key m) = some m ∨
      ∃ u, (Function.update s.calls t .idle u).Pending m
    by_cases hmn : m = n
    · subst hmn
      exact .inl (Function.update_self ..)
    · rcases h.active m hm hrun with hentry | ⟨u, hu⟩
      · left
        rw [Function.update_of_ne, hentry]
        intro heq
        rw [heq, hfree] at hentry
        cases hentry
      · right
        refine ⟨u, ?_⟩
        rw [Function.update_of_ne]
        · exact hu
        · rintro rfl
          exact hmn (ht m hu)
  · have hok := h.calls u
    have hlocks := hother u hut
    cases hpc : s.calls u with
    | restarting m | storing m =>
      rw [hpc] at hlocks
      cases hlocks
    | idle => trivial
    | inserting m | publishing m =>
      rw [hpc] at hok
      exact hok

/-- `start_timer` enters its node. -/
theorem Listed.publish (h : Listed s) (ha : heapTimer.enabled s (.publish t n))
    (hkeeps : KeepsIds s (.publish t n)) : Listed (heapTimer.next s (.publish t n)) := by
  obtain ⟨ht, hfree⟩ := ha
  obtain ⟨hrunning, hnone⟩ := hkeeps
  have hok := h.calls t
  rw [ht] at hok
  obtain ⟨hact, htimer, hlt⟩ := hok
  have hplaced := h.placed.step (a := .publish t n) ⟨ht, hfree⟩ trivial
  refine h.entered hplaced (fun m hm => ?_) hnone hrunning
    (hact.resolve_left (by rw [hrunning]; decide)) (fun m k hk => ?_) ?_ (fun m k hk => ?_)
    (fun u _ => h.not_locks hfree)
  · rw [ht] at hm
    exact hm
  · rw [Function.update_apply]
    split
    · next heq =>
      rw [HeapTimer.idOf, heq] at hk
      rw [(h.returned n k hk).1]
    · exact hk
  · rw [htimer, Function.update_self]
  · rw [Function.update_apply] at hk
    split at hk
    · next heq =>
      cases hk
      exact ⟨congrArg s.key heq, heq ▸ hlt⟩
    · exact h.returned m k hk

/-- `restart_timer` enters its node, under 0. -/
theorem Listed.store (h : Listed s) (ht : s.calls t = .storing n) :
    Listed (heapTimer.next s (.store t n)) := by
  have hok := h.calls t
  rw [ht] at hok
  obtain ⟨hr, hact⟩ := hok
  have hplaced := h.placed.step (a := .store t n) ht trivial
  refine h.entered hplaced (fun m hm => ?_) (by rw [hr.key, hr.free]) hr.running hact
    (fun m k => id) (by rw [hr.key]; exact hr.idOf) h.returned (fun u hut => ?_)
  · rw [ht] at hm
    exact hm
  · refine Bool.eq_false_iff.2 fun hu => hut (h.alone t u ?_ hu)
    rw [ht]
    rfl

/-- `restart_timer` of the timer under 0. -/
theorem Listed.restart {now : Int} {interval : UInt32} (h : Listed s)
    (ha : heapTimer.enabled s (.restart t now k interval))
    (hkeeps : KeepsIds s (.restart t now k interval)) :
    Listed (heapTimer.next s (.restart t now k interval)) := by
  obtain ⟨ht, hfree⟩ := ha
  have hplaced := h.placed.step (a := .restart t now k interval) ⟨ht, hfree⟩ trivial
  simp only [heapTimer] at hplaced ⊢
  cases hk : s.timerNodes k with
  | none => exact h
  | some m =>
    rw [hk] at hplaced
    obtain ⟨hkey, hid, -, hact⟩ := h.entry k m hk
    obtain rfl : k = 0 := hkeeps.resolve_left (by rw [hk]; exact Option.some_ne_none m)
    have hstop : Listed (s.stop 0 m) :=
      h.stop (l := s.loopPc) (h.placed.mono rfl rfl h.placed.front (fun _ => id) fun _ _ => id) hfree
        hact hkey (.inr hk) fun _ _ => Iff.rfl
    have hnode := nodes_make (s.stop 0 m) (HeapTimer.restartedNode now (s.nodes m) interval)
      (s.timerOf m)
    have htimer := timerOf_make (s.stop 0 m) (HeapTimer.restartedNode now (s.nodes m) interval)
      (s.timerOf m)
    refine hstop.made (i := s.timerIndex) hplaced ?_ ht (fun _ => rfl) fun _ => hfree
    refine ⟨congrArg TimerNode.stopped hnode,
      congrArg (fun node : TimerNode => node.timerId.toUInt32) hnode,
      (congrArg s.returned htimer).trans hid, ?_, rfl, Nat.lt_succ_self _⟩
    exact Function.update_self (0 : UInt32) none s.timerNodes

/-- A step of `timer_loop` that changes neither ids nor entries. -/
theorem Listed.moved_of {s' : HeapTimer} (h : Listed s) (hp : Placed s') (hnodes : s'.nodes = s.nodes)
    (htimer : s'.timerOf = s.timerOf) (hreturned : s'.returned = s.returned)
    (hentries : s'.timerNodes = s.timerNodes) (hlocked : s'.locked = s.locked)
    (hcalls : s'.calls = s.calls) (hcreated : s'.created = s.created)
    (hactive : ∀ n, (s.nodes n).stopped = false → (s'.Active n ↔ s.Active n)) : Listed s' := by
  refine h.moved ⟨fun n _ => ?_, fun n _ => ?_, fun n _ => ?_, hreturned, hentries, fun hl => ?_, ?_⟩
    hp hcalls hcreated hactive
  · rw [HeapTimer.key, hnodes]
    rfl
  · rw [hnodes]
  · rw [htimer]
  · rw [hlocked, hl]
  · rw [hcreated]

/-- A node that a handler returned true for is inserted again, or is done if it was stopped. -/
theorem Listed.handledTrue {now : Int} (h : Listed s) (hpc : s.loopPc = .handling n)
    (hkeeps : KeepsIds s (.handled n true now)) : Listed (heapTimer.next s (.handled n true now)) := by
  have hplaced := h.placed.step (a := .handled n true now) ⟨hpc, .inl rfl⟩ trivial
  simp only [heapTimer] at hplaced ⊢
  split
  · next hloop =>
    rw [if_pos hloop] at hplaced
    refine h.moved ⟨fun m _ => ?_, fun m _ => ?_, fun _ _ => rfl, rfl, rfl, id, Nat.le_refl _⟩ hplaced
      rfl rfl fun m _ => or_congr Iff.rfl ?_
    · exact setNode_congr (fun node => node.timerId.toUInt32) rfl
    · exact setNode_congr TimerNode.stopped rfl
    · rw [hpc]
      exact Iff.rfl
  · next hloop =>
    rw [if_neg hloop] at hplaced
    refine h.moved_of hplaced rfl rfl rfl rfl rfl rfl rfl fun m hm => or_congr Iff.rfl ?_
    rw [hpc]
    refine iff_of_false id ?_
    rintro rfl
    rcases hkeeps with hl | hstopped
    · exact hloop (by rw [hl, hm]; rfl)
    · cases hm.symm.trans hstopped

theorem Listed.top {now : Int} (h : Listed s) (hp : Placed (heapTimer.next s (.top now)))
    (ha : heapTimer.enabled s (.top now)) : Listed (heapTimer.next s (.top now)) := by
  have hpc : ∀ n, ¬ s.loopPc.Holds n := by
    intro n hn
    rcases ha with hidle | hlooping
    · rw [hidle] at hn
      exact hn
    · rw [hlooping] at hn
      exact hn
  have hmoved : ∀ l : LoopPc, (∀ n, ¬ l.Holds n) → Placed { s with loopPc := l } →
      Listed { s with loopPc := l } := fun l hl hp =>
    h.moved_of hp rfl rfl rfl rfl rfl rfl rfl fun n _ =>
      or_congr Iff.rfl (iff_of_false (hl n) (hpc n))
  simp only [heapTimer] at hp ⊢
  cases hfront : s.heapData[0]? with
  | none =>
    rw [hfront] at hp
    exact hmoved .idle (fun _ => id) hp
  | some n =>
    rw [hfront] at hp
    dsimp only at hp ⊢
    split
    · next hdue =>
      rw [if_pos hdue] at hp
      exact hmoved (.due n) (fun _ => id) hp
    · next hdue =>
      rw [if_neg hdue] at hp
      exact hmoved .idle (fun _ => id) hp

/-- `timer_loop` takes the front out of the heap and holds it. -/
theorem Listed.pop (h : Listed s) (hp : Placed (heapTimer.next s (.pop n)))
    (hpc : s.loopPc = .due n) : Listed (heapTimer.next s (.pop n)) := by
  have hperm := pop_perm_of_front (h.placed.front n hpc)
  refine h.moved_of hp rfl rfl rfl rfl rfl rfl rfl fun m _ => ?_
  have hmem : m ∈ s.heapData ↔ m = n ∨ m ∈ s.pop.heapData := by
    rw [← Array.mem_toList_iff, ← hperm.mem_iff, List.mem_cons, Array.mem_toList_iff]
  rw [HeapTimer.Active, HeapTimer.Active, hpc, hmem]
  exact ⟨fun hm => .inl hm.symm, fun hm => (hm.resolve_right id).symm⟩

/-- A node that was stopped is dropped. -/
theorem Listed.check (h : Listed s) (hp : Placed (heapTimer.next s (.check n)))
    (hpc : s.loopPc = .popped n) : Listed (heapTimer.next s (.check n)) := by
  simp only [heapTimer] at hp ⊢
  split
  · next hstopped =>
    rw [if_pos hstopped] at hp
    refine h.moved_of hp rfl rfl rfl rfl rfl rfl rfl fun m hm => or_congr Iff.rfl ?_
    rw [hpc]
    refine iff_of_false id ?_
    rintro rfl
    cases hm.symm.trans hstopped
  · next hstopped =>
    rw [if_neg hstopped] at hp
    refine h.moved_of hp rfl rfl rfl rfl rfl rfl rfl fun m _ => or_congr Iff.rfl ?_
    rw [hpc]
    exact Iff.rfl

theorem Listed.reinsert (h : Listed s) (hp : Placed (heapTimer.next s (.reinsert n)))
    (hpc : s.loopPc = .reinserting n) : Listed (heapTimer.next s (.reinsert n)) := by
  refine h.moved_of hp rfl rfl rfl rfl rfl rfl rfl fun m _ => ?_
  rw [HeapTimer.Active, HeapTimer.Active, hpc]
  change m ∈ (s.insert n).heapData ∨ False ↔ m ∈ s.heapData ∨ m = n
  rw [mem_insert, or_false, or_comm]

theorem Listed.step (h : Listed s) (ha : heapTimer.enabled s a) (hkeeps : KeepsIds s a) :
    Listed (heapTimer.next s a) := by
  have hplaced := h.placed.step ha hkeeps.noneOvertakes
  cases a with
  | start t now interval loop =>
    refine h.made (l := s.locked) hplaced ?_ ha id fun hl => by cases hl
    have hnode := nodes_make s (s.startedNode now interval loop) s.created
    exact ⟨congrArg TimerNode.stopped hnode, timerOf_make s (s.startedNode now interval loop) _,
      Nat.lt_succ_self _⟩
  | insertStarted t n =>
    have ht : s.calls t = .inserting n := ha
    have hok := h.calls t
    rw [ht] at hok
    refine h.insertMade hplaced rfl ⟨.inr (.inl (mem_insert.2 (.inl rfl))), hok.2⟩ (fun m => ?_)
      fun hl => by cases hl
    rw [ht]
    exact id
  | publish t n => exact h.publish ha hkeeps
  | stop k =>
    simp only [heapTimer, HeapTimer.stopTimer] at hplaced ⊢
    cases hk : s.timerNodes k with
    | none => exact h
    | some n =>
      rw [hk] at hplaced
      obtain ⟨hkey, -, -, hact⟩ := h.entry k n hk
      exact h.stop (l := s.loopPc) hplaced ha hact hkey (.inr hk) fun _ _ => Iff.rfl
  | restart t now k interval => exact h.restart ha hkeeps
  | insertRestarted t n =>
    have ht : s.calls t = .restarting n := ha
    have hok := h.calls t
    rw [ht] at hok
    have hs : SameIds s ((s.insert n).setCall t (.storing n)) :=
      ⟨fun _ _ => rfl, fun _ _ => rfl, fun _ _ => rfl, rfl, rfl, id, Nat.le_refl _⟩
    refine h.insertMade hplaced rfl ⟨Restarted.frame hok hs, .inl (mem_insert.2 (.inl rfl))⟩
      (fun m => ?_) fun _ => ?_
    · rw [ht]
      exact id
    · rw [ht]
      rfl
  | store t n => exact h.store ha
  | top now => exact h.top hplaced ha
  | pop n => exact h.pop hplaced ha
  | check n => exact h.check hplaced ha
  | handled n rst now =>
    have hpc : s.loopPc = .handling n := ha.1
    cases rst with
    | true => exact h.handledTrue hpc hkeeps
    | false =>
      have hfree : s.locked = false := ha.2.resolve_left Bool.false_ne_true
      refine h.stop hplaced hfree (.inr (by rw [hpc]; rfl)) rfl hkeeps fun m hm => ?_
      rw [hpc]
      exact iff_of_false id hm
  | reinsert n => exact h.reinsert hplaced ha
  | elsewhere =>
    exact h.moved_of hplaced rfl rfl rfl rfl rfl rfl rfl fun _ _ => Iff.rfl

/-- **Timer ids are valid between calls** in a run whose steps keep them. -/
theorem idsValid_of_steps (h : heapTimer.Runs {} as) (hkeeps : heapTimer.Steps KeepsIds {} as)
    (hq : Quiescent (heapTimer.exec {} as)) : IdsValid (heapTimer.exec {} as) :=
  Listed.idsValid (h.invariant_of_steps (fun _ _ ha hk hi => hi.step ha hk) hkeeps listed_init) hq

/-- A looping timer fires, and one that is not due yet is stopped. -/
def fireAndStop : List TimerAction :=
  [.start 0 0 5 true, .insertStarted 0 0, .publish 0 0, .start 1 0 9 false, .insertStarted 1 1,
    .publish 1 1, .top 7, .pop 0, .check 0, .handled 0 true 8, .reinsert 0, .top 8, .stop 1025]

theorem fireAndStop_idsValid : IdsValid (heapTimer.exec {} fireAndStop) := by
  refine idsValid_of_steps (by decide) (by decide) ⟨rfl, fun t => ?_⟩
  match t with
  | 0 => rfl
  | 1 => rfl
  | t + 2 => rfl

/-- A timer is started and restarted. -/
def restartOnce : List TimerAction :=
  [.start 0 0 5 false, .insertStarted 0 0, .publish 0 0, .restart 0 0 1024 0, .insertRestarted 0 1,
    .store 0 1]

theorem restarted_under_zero : ¬ ∀ as, heapTimer.Runs {} as →
    Quiescent (heapTimer.exec {} as) → IdsValid (heapTimer.exec {} as) := by
  intro h
  have hquiescent : Quiescent (heapTimer.exec {} restartOnce) := by
    refine ⟨rfl, fun t => ?_⟩
    cases t with
    | zero => rfl
    | succ t => rfl
  have hvalid := h restartOnce (by decide) hquiescent
  have hid := ((hvalid.entries 0 1).1 rfl).2
  exact absurd hid (by decide)

end SNet.Utils
