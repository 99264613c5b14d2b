import SNet.Utils.TimerSchedules

/-!
# The intervals of the timers

An interval is 64 bits wide for `TcpConnection`, 32 bits for `HeapTimer` and a signed number of 32
bits in a node. One of 2^31 microseconds or more arrives as another, which may be negative, so that
the timer fires early (`fires_at_once`). `neverEarly_of_steps` says that no other timer does.
-/

namespace SNet.Utils

/-! ## Calls and what they demand -/

/-- The operations of `HeapTimer` and the calls of `TcpConnection`. -/
inductive TimerCall
  | own (a : RunAction)
  /-- `TcpConnection::start_timer`. -/
  | start (now : Int) (interval : UInt64) (loop : Bool)
  /-- `TcpConnection::restart_timer`. -/
  | restart (now : Int) (id interval : UInt64)

namespace TimerCall

def action : TimerCall → RunAction
  | .own a => a
  | .start now interval loop => .start now interval.toUInt32 loop
  | .restart now id interval => .restart now id.toUInt32 interval.toUInt32

/-- The interval in the call. -/
def requested : TimerCall → Nat
  | .own (.start _ interval _) | .own (.restart _ _ interval) => interval.toNat
  | .own _ => 0
  | .start _ interval _ | .restart _ _ interval => interval.toNat

end TimerCall

/-- For each timer the interval that was requested last, and when its handler may run next. -/
structure Demands where
  interval : Nat → Nat := fun _ => 0
  earliest : Nat → Int := fun _ => 0

namespace Demands

def set (d : Demands) (timer interval : Nat) (now : Int) : Demands where
  interval := Function.update d.interval timer interval
  earliest := Function.update d.earliest timer (now + interval)

variable {d : Demands} {timer other interval : Nat} {now : Int}

@[simp] theorem interval_set_self : (d.set timer interval now).interval timer = interval :=
  Function.update_self ..

@[simp] theorem earliest_set_self : (d.set timer interval now).earliest timer = now + interval :=
  Function.update_self ..

theorem interval_set_of_ne (h : other ≠ timer) :
    (d.set timer interval now).interval other = d.interval other := Function.update_of_ne h ..

theorem earliest_set_of_ne (h : other ≠ timer) :
    (d.set timer interval now).earliest other = d.earliest other := Function.update_of_ne h ..

end Demands

/-- A start and a restart demand their interval from the reading of the clock, where a restart with 0
keeps the interval; a handler that returns true demands it again for a timer that loops. -/
def demanded (s : TimerRun) (c : TimerCall) (d : Demands) : Demands :=
  match c.action with
  | .start now _ _ => d.set s.timer.created c.requested now
  | .restart now id _ =>
    match s.timer.timerNodes id with
    | some m =>
      let timer := s.timer.timerOf m
      d.set timer (if 0 < c.requested then c.requested else d.interval timer) now
    | none => d
  | .handled rst now _ =>
    match s.inHand with
    | some n =>
      let timer := s.timer.timerOf n
      if s.timer.reinserts n rst then d.set timer (d.interval timer) now else d
    | none => d
  | .stop _ | .timerLoop _ | .round _ | .finish _ | .elsewhere => d

def demandedRun (A : TimerHeaps) : Machine (TimerRun × Demands) TimerCall :=
  ((timerRun A).comap TimerCall.action).record demanded

instance demandedRun.decidableEnabled (A : TimerHeaps) (t : TimerRun × Demands) (c : TimerCall) :
    Decidable ((demandedRun A).enabled t c) :=
  timerRun.decidableEnabled A t.1 c.action

/-- A handler runs only when its timer may. -/
def NeverEarly (t : TimerRun × Demands) : Prop :=
  ∀ n, t.1.Delivers n → t.2.earliest (t.1.timer.timerOf n) ≤ t.1.clock

/-- Whether the call schedules a timer. -/
def TimerRun.schedules (s : TimerRun) : RunAction → Bool
  | .start .. => true
  | .restart _ id _ => (s.timer.timerNodes id).isSome
  | _ => false

/-- The interval of a timer that is scheduled is less than 2^31. -/
def Fits (s : TimerRun) (c : TimerCall) : Prop :=
  s.schedules c.action = true → c.requested < 2 ^ 31

instance decidableFits (s : TimerRun) (c : TimerCall) : Decidable (Fits s c) :=
  inferInstanceAs (Decidable (_ → _))

/-! ## Conversions -/

theorem requested_of_start {c : TimerCall} {now : Int} {interval : UInt32} {loop : Bool}
    (h : c.action = .start now interval loop) (hlt : c.requested < 2 ^ 31) :
    interval.toNat = c.requested := by
  cases c with
  | own a =>
    cases h
    rfl
  | start now interval loop =>
    cases h
    exact Nat.mod_eq_of_lt (Nat.lt_trans hlt (by decide))
  | restart => cases h

theorem requested_of_restart {c : TimerCall} {now : Int} {id interval : UInt32}
    (h : c.action = .restart now id interval) (hlt : c.requested < 2 ^ 31) :
    interval.toNat = c.requested := by
  cases c with
  | own a =>
    cases h
    rfl
  | start => cases h
  | restart now id interval =>
    cases h
    exact Nat.mod_eq_of_lt (Nat.lt_trans hlt (by decide))

/-- A number below 2^31 stays what it is. -/
theorem toInt_of_lt {interval : UInt32} (h : interval.toNat < 2 ^ 31) :
    interval.toInt32.toInt = interval.toNat :=
  BitVec.toInt_eq_toNat_of_lt (by
    change 2 * interval.toNat < 2 ^ 32
    omega)

/-! ## The nodes -/

section

variable {A : TimerHeaps} {t t' : HeapTimer} {n m timer i : Nat} {now : Int} {k : UInt32}
  {rst : Bool} {node : TimerNode} {held held' : List Nat} {d : Demands}

/-- The nodes have the intervals that were requested, and none in the heap expires early. -/
structure Demanded (t : HeapTimer) (held : List Nat) (d : Demands) : Prop where
  interval : ∀ n, t.Current held n → (t.nodes n).interval.toInt = d.interval (t.timerOf n)
  earliest : ∀ n ∈ t.heapData, (t.nodes n).stopped = false →
    d.earliest (t.timerOf n) ≤ t.expire n

namespace Demanded

/-- An operation that makes no node and inserts none. -/
theorem fewer (h : Demanded t held d) (hcurrent : ∀ n, t'.Current held' n → t.Current held n)
    (hheap : ∀ n ∈ t'.heapData, n ∈ t.heapData)
    (hstopped : ∀ n, (t'.nodes n).stopped = false → (t.nodes n).stopped = false)
    (hinterval : ∀ n, (t'.nodes n).interval = (t.nodes n).interval)
    (hexpire : ∀ n, t'.expire n = t.expire n) (htimer : t'.timerOf = t.timerOf) :
    Demanded t' held' d where
  interval n hn := by
    rw [hinterval, htimer]
    exact h.interval n (hcurrent n hn)
  earliest n hn hrunning := by
    rw [hexpire, htimer]
    exact h.earliest n (hheap n hn) (hstopped n hrunning)

theorem stop (h : Demanded t held d) : Demanded (t.stop k n) held d :=
  h.fewer (fun _ hm => (current_stop hm).2) (fun _ => id) (fun _ hm => (stopped_stop.1 hm).2)
    (fun _ => setNode_congr TimerNode.interval rfl) (fun _ => expire_stop) rfl

theorem made (h : Demanded t held d) (hs : Schedules t held) (hp : InPlace t held)
    (hmakes : Makes t t' node timer) (hinterval : node.interval.toInt = i)
    (hexpire : node.expireTime = now + i) (hfree : ∀ n, t.Current held n → t.timerOf n ≠ timer) :
    Demanded t' held (d.set timer i now) where
  interval n hn := by
    rcases hmakes.current hs hp hn with rfl | hcur
    · rw [hmakes.new.1, hmakes.new.2, hinterval, Demands.interval_set_self]
    · obtain ⟨hnode, htimer⟩ := hmakes.old (hs.lt hp hcur)
      rw [hnode, htimer, Demands.interval_set_of_ne (hfree n hcur)]
      exact h.interval n hcur
  earliest n hn hrunning := by
    have hcur : t'.Current held n :=
      ⟨hrunning, .inl (List.mem_append_left _ (Array.mem_toList_iff.2 hn))⟩
    rcases hmakes.current hs hp hcur with rfl | hcur
    · rw [HeapTimer.expire, hmakes.new.1, hmakes.new.2, hexpire, Demands.earliest_set_self]
    · have hlt := hs.lt hp hcur
      obtain ⟨hnode, htimer⟩ := hmakes.old hlt
      have hold : n ∈ t.heapData :=
        Array.mem_toList_iff.1 ((List.mem_cons.1 (hmakes.heap.subset (Array.mem_toList_iff.2 hn))
          ).resolve_left (Nat.ne_of_lt hlt))
      rw [HeapTimer.expire, hnode, htimer, Demands.earliest_set_of_ne (hfree n hcur)]
      exact h.earliest n hold hcur.1

theorem startTimer {interval : UInt32} {loop : Bool} (h : Demanded t held d) (hs : Schedules t held)
    (hp : InPlace t held) (hlt : interval.toNat < 2 ^ 31) :
    Demanded (t.startTimer A now interval loop).1 held (d.set t.created interval.toNat now) :=
  h.made hs hp (startTimer_makes hp) (toInt_of_lt hlt) (congrArg (now + ·) (toInt_of_lt hlt))
    fun n hn => Nat.ne_of_lt (hs.timer n (hs.lt hp hn))

/-- `restart_timer` with 0 keeps the interval. -/
theorem restartTimer {interval : UInt32} (h : Demanded t held d) (hs : Schedules t held)
    (hp : InPlace t held) (hk : t.timerNodes k = some m) (hlt : interval.toNat < 2 ^ 31) :
    Demanded (t.restartTimer A now k interval).1 held
      (d.set (t.timerOf m)
        (if 0 < interval.toNat then interval.toNat else d.interval (t.timerOf m)) now) := by
  obtain ⟨hkey, hrunning, -⟩ := hs.entry k m hk
  have hm := h.interval m ⟨hrunning, .inr ⟨k, hk⟩⟩
  have hst : Schedules (t.stop k m) held ∧ NoneRevived t held (t.stop k m) held :=
    hs.stop hkey fun _ => id
  have hnode : (HeapTimer.restartedNode now (t.nodes m) interval).interval.toInt =
      (if 0 < interval.toNat then interval.toNat else d.interval (t.timerOf m) : Nat) := by
    change (if 0 < interval then interval.toInt32 else (t.nodes m).interval).toInt = _
    have hiff : 0 < interval ↔ 0 < interval.toNat := UInt32.lt_iff_toNat_lt
    by_cases hpos : 0 < interval.toNat
    · rw [if_pos (hiff.2 hpos), if_pos hpos, toInt_of_lt hlt]
    · rw [if_neg (mt hiff.1 hpos), if_neg hpos, hm]
  exact h.stop.made hst.1 hp.stop (restartTimer_makes hp hk) hnode (congrArg (now + ·) hnode)
    fun n hn => hs.timerOf_ne hk hn

theorem stopTimer (h : Demanded t held d) : Demanded (t.stopTimer k).1 held d := by
  rw [HeapTimer.stopTimer]
  split
  · exact h.stop
  · exact h

theorem popBy (h : Demanded t held d) (hp : InPlace t held) (hn : t.front = some n) :
    Demanded (t.popBy A) (n :: held) d := by
  have hperm := hp.popBy_perm (A := A) hn
  refine h.fewer (fun m hm => ⟨hm.1, hm.2.imp_left fun hmem => ?_⟩) (fun m hm => ?_) (fun _ => id)
    (fun _ => rfl) (fun _ => rfl) rfl
  · exact (hperm.append_right held).subset (List.perm_middle.subset hmem)
  · exact Array.mem_toList_iff.1 (hperm.subset (.tail n (Array.mem_toList_iff.2 hm)))

theorem drop (h : Demanded t (n :: held) d) : Demanded t held d := by
  refine h.fewer (fun m hm => ⟨hm.1, hm.2.imp_left fun hmem => ?_⟩) (fun _ => id) (fun _ => id)
    (fun _ => rfl) (fun _ => rfl) rfl
  exact (List.mem_append.1 hmem).elim (List.mem_append_left _) fun hmem =>
    List.mem_append_right _ (.tail n hmem)

/-- A node that is inserted again is due an interval after its handler returned. -/
theorem reinsert (h : Demanded t (n :: held) d) (hs : Schedules t (n :: held))
    (hp : InPlace t (n :: held)) (hre : t.reinserts n rst = true) :
    Demanded (t.handleTimeout A n rst now) held
      (d.set (t.timerOf n) (d.interval (t.timerOf n)) now) := by
  obtain ⟨⟨-, -⟩, hrunning⟩ : (rst = true ∧ (t.nodes n).loop = true) ∧
      (t.nodes n).stopped = false := by simpa [HeapTimer.reinserts] using hre
  have hn : t.Current (n :: held) n := ⟨hrunning, .inl (List.mem_append_right _ (.head _))⟩
  have hperm := @handleTimeout_perm A t n now rst held hp hre
  rw [HeapTimer.handleTimeout, if_pos hre] at hperm ⊢
  generalize hnode : { t.nodes n with expireTime := now + (t.nodes n).interval.toInt } = node
    at hperm ⊢
  have hcurrent : ∀ m, ((t.setNode n node).insertBy A n).Current held m →
      t.Current (n :: held) m := by
    rintro m ⟨hm, hplace⟩
    refine ⟨?_, hplace.imp_left fun hmem => ?_⟩
    · rw [← hm]
      exact (setNode_congr TimerNode.stopped (by rw [← hnode])).symm
    · exact List.perm_middle.symm.subset ((hperm.append_right held).subset hmem)
  constructor
  · intro m hm
    have hsame : (d.set (t.timerOf n) (d.interval (t.timerOf n)) now).interval = d.interval :=
      Function.update_eq_self ..
    rw [hsame]
    refine (congrArg Int32.toInt ?_).trans (h.interval m (hcurrent m hm))
    exact setNode_congr TimerNode.interval (by rw [← hnode])
  · intro m hm hstopped
    change (d.set _ _ now).earliest (t.timerOf m) ≤ (t.setNode n node).expire m
    by_cases hmn : m = n
    · subst hmn
      rw [Demands.earliest_set_self, ← h.interval m hn]
      change _ ≤ (Function.update t.nodes m node m).expireTime
      rw [Function.update_self, ← hnode]
    · have hold : m ∈ t.heapData :=
        Array.mem_toList_iff.1
          ((List.mem_cons.1 (hperm.subset (Array.mem_toList_iff.2 hm))).resolve_left hmn)
      have hcur := hcurrent m ⟨hstopped, .inl (List.mem_append_left _ (Array.mem_toList_iff.2 hm))⟩
      have hother : t.timerOf m ≠ t.timerOf n := fun heq => hmn (hs.one m n hcur hn heq)
      rw [Demands.earliest_set_of_ne hother, expire_setNode_of_ne hmn]
      exact h.earliest m hold hcur.1

end Demanded

end

/-! ## Runs -/

variable {A : TimerHeaps} {s : TimerRun} {c : TimerCall} {cs : List TimerCall} {d : Demands}

theorem demanded_init : Demanded {} [] {} where
  interval n h := by
    rcases h.2 with hmem | ⟨k, hk⟩
    · cases hmem
    · cases hk
  earliest n h := absurd h (Array.not_mem_empty n)

theorem Demanded.handleTimeout {n : Nat} {rst : Bool} {now : Int} {t : HeapTimer}
    {held : List Nat} (h : Demanded t (n :: held) d) (hs : Schedules t (n :: held))
    (hp : InPlace t (n :: held)) :
    Demanded (t.handleTimeout A n rst now) held
      (if t.reinserts n rst then d.set (t.timerOf n) (d.interval (t.timerOf n)) now else d) := by
  split
  · next hre => exact h.reinsert hs hp hre
  · next hre =>
    rw [HeapTimer.handleTimeout, if_neg hre]
    split
    · exact h.drop
    · exact h.drop.stop

/-- **A step** whose interval fits keeps the demands. -/
theorem Demanded.step (h : Demanded s.timer s.held d) (ho : Ordered s)
    (hs : Schedules s.timer s.held) (ha : (timerRun A).enabled s c.action) (hfits : Fits s c) :
    Demanded ((timerRun A).next s c.action).timer ((timerRun A).next s c.action).held
      (demanded s c d) := by
  have hp := ho.inPlace
  rw [Fits] at hfits
  rw [demanded]
  cases hc : c.action with
  | start now interval loop =>
    rw [hc] at hfits
    have hreq := requested_of_start hc (hfits rfl)
    rw [← hreq]
    exact h.startTimer hs hp (hreq ▸ hfits rfl)
  | stop id => exact h.stopTimer
  | restart now id interval =>
    rw [hc] at hfits
    cases hk : s.timer.timerNodes id with
    | none =>
      simp only [timerRun, HeapTimer.restartTimer, hk]
      exact h
    | some m =>
      have hlt := hfits (by rw [TimerRun.schedules, hk]; rfl)
      have hreq := requested_of_restart hc hlt
      simp only [hk, ← hreq]
      exact h.restartTimer hs hp hk (hreq ▸ hlt)
  | timerLoop now => exact h
  | round now =>
    rw [hc] at ha
    obtain ⟨n, hn⟩ := Option.ne_none_iff_exists'.1 ha
    have hpop := h.popBy (A := A) hp (ho.due hn).1
    rw [ho.held_of_due hn] at hpop
    simp only [timerRun, hn]
    split
    · exact hpop.drop
    · exact hpop
  | handled rst now now' =>
    rw [hc] at ha
    obtain ⟨n, hn⟩ := Option.ne_none_iff_exists'.1 ha
    rw [held_of_inHand hn] at h hs hp
    simp only [timerRun, hn]
    exact h.handleTimeout hs hp
  | finish now =>
    rw [hc] at ha
    obtain ⟨hnext, hheld⟩ := ho.next_finish ha A now
    rw [hnext, TimerRun.held, ← hheld]
    exact h
  | elsewhere =>
    exact h.fewer (fun _ => id) (fun _ => id) (fun _ => id) (fun _ => rfl) (fun _ => rfl) rfl

/-- **No timer fires early** in a run whose intervals fit. -/
theorem neverEarly_of_steps (h : (demandedRun A).Runs ({}, {}) cs)
    (hfits : (demandedRun A).Steps (fun t => Fits t.1) ({}, {}) cs) :
    NeverEarly ((demandedRun A).exec ({}, {}) cs) := by
  have hinv := h.invariant_of_steps (P := fun t => Fits t.1)
    (I := fun t => Ordered t.1 ∧ Schedules t.1.timer t.1.held ∧ Demanded t.1.timer t.1.held t.2)
    (fun t c ha hfits ht => ⟨ht.1.step ha, (ht.2.1.step ht.1 ha).1,
      ht.2.2.step ht.1 ht.2.1 ha hfits⟩)
    hfits ⟨ordered_init, schedules_init, demanded_init⟩
  obtain ⟨ho, -, hd⟩ := hinv
  rintro n ⟨hdue, hrunning⟩
  obtain ⟨hfront, hle, -⟩ := ho.due hdue
  exact Int.le_trans (hd.earliest n (Array.mem_of_getElem? hfront) hrunning) hle

/-- A looping timer of `TcpConnection` is due for the second time. -/
theorem neverEarly_twice :
    NeverEarly ((demandedRun .sifting).exec ({}, {}) [.start 0 5 true, .own (.timerLoop 5),
      .own (.round 5), .own (.handled true 6 12)]) :=
  neverEarly_of_steps (by decide) (by decide)

theorem fires_at_once : ¬ ∀ cs, (demandedRun .sifting).Runs ({}, {}) cs →
    (demandedRun .sifting).Steps (fun t c => Forward t.1 c.action) ({}, {}) cs →
      NeverEarly ((demandedRun .sifting).exec ({}, {}) cs) := by
  intro h
  have hearly := h [.own (.start 0 2147483648 false), .own (.timerLoop 0)] (by decide) (by decide) 0
    ⟨by decide, by decide⟩
  exact absurd hearly (by decide)

end SNet.Utils
