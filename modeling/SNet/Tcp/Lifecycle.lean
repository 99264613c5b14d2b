import SNet.Library.Sessions
import SNet.Tcp.Setup

/-!
# The life cycle that the application sees

`on_ready` raises `EVT_CONNECT`, `do_close` raises `EVT_DISCONNECT`, and `process_data` calls
`handle_data` in between. The sequence is kept by the status, except where `close()` takes effect in
`CONN_IDLE`: then `do_close` raises an `EVT_DISCONNECT` that no `EVT_CONNECT` came before
(`disconnect_without_connect`). In the runs that avoid this, and in which the timer does not connect
a connection in `CONN_CLOSED`, the application sees sessions (`lifeCycle_of_steps`).
-/

namespace SNet.Tcp

open Sessions

variable {s : Sys} {a : Action} {as : List Action} {buf : Nat → UInt8} {c : TcpConnection}
  {sd : Int} {ctl : Bool} {e : Event} {tr evs evs' : List Event} {reg : List Int}

/-! ## The property and its condition -/

/-- The callbacks of the application. -/
def callbacks (tr : List Event) : List Event :=
  tr.filter fun | .handleEvent _ | .handleData _ => true | _ => false

/-- The callbacks are a sequence of `EVT_CONNECT`, `handle_data` any number of times and
`EVT_DISCONNECT`, the last of which may still go on; without `need_reconnect` there is one at most. -/
def LifeCycle (s : Sys) : Prop :=
  ∃ whole live, callbacks s.trace =
      list (.handleEvent .evtConnect) (.handleEvent .evtDisconnect) .handleData whole live ∧
    (s.conn.needReconnect = false → whole.length + live.toList.length ≤ 1)

/-- The answers with which `do_connect` registers its descriptor with epoll. -/
def ConnectAnswer.Registers (r : ConnectAnswer) : Prop :=
  0 < r.sd ∧ r.inetPton = true ∧ r.connected = true ∧ r.ctl = true

/-- No `close()` takes effect in `CONN_IDLE`, and the timer connects nothing in `CONN_CLOSED`. -/
def ClosesReady (s : Sys) : Action → Prop
  | .close _ => s.conn.connStatus ≠ .connIdle
  | .send _ r _ => r = .failed → s.conn.sendBuffer ≠ [] → s.conn.connStatus ≠ .connIdle
  | .timer r => s.conn.connStatus = .connClosed → ¬ r.Registers
  | _ => True

instance ConnectAnswer.decidableRegisters (r : ConnectAnswer) : Decidable r.Registers :=
  inferInstanceAs (Decidable (_ ∧ _))

instance ClosesReady.decidable (s : Sys) : ∀ a, Decidable (ClosesReady s a)
  | .close _ => inferInstanceAs (Decidable (¬ _))
  | .send .. | .timer _ => inferInstanceAs (Decidable (_ → _))
  | .accept .. | .connect .. | .enableReconnect | .msend .. | .push .. | .epollWait _
  | .processEvent _ | .onReady _ | .read .. | .write .. | .error .. | .finish _ =>
    inferInstanceAs (Decidable True)

/-! ## Callbacks -/

theorem callbacks_append : callbacks (evs ++ evs') = callbacks evs ++ callbacks evs' :=
  List.filter_append _ _

/-- Without a change of status there is only data. -/
theorem callbacks_eq_map (h : ∀ e ∈ evs, e.kind ≠ .status) :
    callbacks evs = (packages evs).map .handleData := by
  induction evs with
  | nil => rfl
  | cons e evs ih =>
    rcases List.forall_mem_cons.1 h with ⟨he, hevs⟩
    have ih := ih hevs
    cases e with
    | handleEvent evt => exact absurd rfl he
    | handleData d => exact congrArg (_ :: ·) ih
    | _ => exact ih

theorem callbacks_eq_nil (h : ∀ e ∈ evs, e.kind ≠ .status ∧ e.kind ≠ .receive) :
    callbacks evs = [] := by
  rw [callbacks_eq_map fun e he => (h e he).1, packages_eq_nil fun e he => (h e he).2]
  rfl

theorem callbacks_onReady (hs : c.connStatus = .connIdle) :
    callbacks (onReady c).2 = [.handleEvent .evtConnect] := by
  rw [onReady, if_pos hs]
  rfl

theorem callbacks_doClose (hs : c.connStatus = .connClosing) :
    callbacks (doClose c ctl).2 = [.handleEvent .evtDisconnect] := by
  have hdel : callbacks (if c.tcpWorker then delEvent c.connSd ctl else []) = [] := by
    refine callbacks_eq_nil fun e he => ?_
    rw [List.mem_ite_nil_right] at he
    have hk := delEvent_kind e he.2
    exact ⟨by simp [hk], by simp [hk]⟩
  have hdis : callbacks (disconnect c ctl) = [.handleEvent .evtDisconnect] := by
    rw [disconnect, callbacks_append, hdel]
    rfl
  rw [doClose, if_pos hs]
  split
  · exact hdis
  · rw [callbacks_append, hdis]
    refine congrArg (_ :: ·) (callbacks_eq_nil fun e he => ?_)
    rw [List.mem_append, List.mem_ite_nil_right, List.mem_ite_nil_right, List.mem_singleton,
      List.mem_singleton] at he
    rcases he with ⟨-, rfl⟩ | ⟨-, rfl⟩
    · exact ⟨by rintro ⟨⟩, by rintro ⟨⟩⟩
    · exact ⟨by rintro ⟨⟩, by rintro ⟨⟩⟩

/-! ## Registered descriptors -/

/-- A `do_connect` that fails registers nothing. -/
theorem doConnect_registered {r : ConnectAnswer} (hr : ¬ r.Registers)
    (hsd : sd ∈ (doConnect c r).2.foldl Event.register reg) : sd ∈ reg := by
  unfold doConnect at hsd
  split at hsd
  · exact hsd
  · next hpton =>
    split at hsd
    · exact (List.mem_filter.1 hsd).1
    · next hconn =>
      unfold addEvent at hsd
      split at hsd
      · next hpos =>
        have hctl : r.ctl = false := by
          by_contra hctl
          exact hr ⟨hpos, by simpa using hpton, by simpa using hconn, by simpa using hctl⟩
        rw [hctl] at hsd
        exact (List.mem_filter.1 hsd).1
      · exact hsd

/-- `do_close` without `need_reconnect` leaves nothing registered. -/
theorem doClose_registered (h : ∀ sd ∈ reg, 0 < sd ∧ sd = c.connSd)
    (hneed : c.needReconnect = false) (hs : c.connStatus = .connClosing) :
    (doClose c ctl).2.foldl Event.register reg = [] := by
  rw [List.eq_nil_iff_forall_not_mem]
  intro sd hsd
  rw [doClose, if_pos hs, if_neg (by simp [hneed])] at hsd
  dsimp only at hsd
  rw [List.foldl_append, List.foldl_append] at hsd
  have hpost : ∀ e ∈ (if c.factory then [Event.postRemove] else []), e.kind ≠ .opening := by
    intro e he
    rw [List.mem_ite_nil_right, List.mem_singleton] at he
    rw [he.2]
    rintro ⟨⟩
  have hdis : ∀ e ∈ disconnect c ctl, e.kind ≠ .opening := by
    intro e he hk
    rcases disconnect_kind e he with h | h
    · cases hk.symm.trans h
    · cases hk.symm.trans h
  have hsd := foldl_register_mem hpost hsd
  split at hsd
  · -- `::close` has taken the descriptor out of the set
    rcases List.mem_filter.1 hsd with ⟨hmem, hne⟩
    exact (of_decide_eq_true hne) (h sd (foldl_register_mem hdis hmem)).2
  · next hneg =>
    rcases h sd (foldl_register_mem hdis hsd) with ⟨hpos, rfl⟩
    exact hneg hpos

/-! ## The worker and the status -/

/-- The worker is past `on_ready` in `process_event`. -/
def WorkerPc.PastReady : WorkerPc → Prop
  | .reading _ | .sending _ | .erring _ | .checking => True
  | .waiting | .entered _ => False

/-- The events of this connection that are under way. -/
def pending (s : Sys) : Nat := s.batch.length + if s.worker = .waiting then 0 else 1

/-- How the status goes with the worker, the registered descriptors and the timer. -/
structure Living (s : Sys) : Prop where
  unborn : s.conn.tcpWorker = false → Unborn s
  ready : s.worker.PastReady → s.conn.connStatus ≠ .connIdle
  closed : s.conn.connStatus = .connClosed →
    s.worker = .waiting ∧ s.batch = [] ∧ registered s.trace = []
  single : s.conn.needReconnect = false → s.timer = false ∧
    (∀ sd ∈ registered s.trace, 0 < sd ∧ sd = s.conn.connSd) ∧ pending s ≤ 1

theorem Living.unborn_needReconnect (h : Living s) (hw : s.conn.tcpWorker = false) :
    s.conn.needReconnect = false := (h.unborn hw).needReconnect

theorem pastReady_of_next (ha : Enabled s a) (h : (next s a).worker.PastReady) :
    s.worker.PastReady ∨ ∃ evts, a = .onReady evts := by
  cases a with
  | onReady evts => exact .inr ⟨evts, rfl⟩
  | processEvent | finish => exact h.elim
  | read evts hp r ctl =>
    rw [ha.1]
    exact .inl trivial
  | write evts r ctl =>
    rw [ha.1]
    exact .inl trivial
  | error evts ctl =>
    rw [show s.worker = .erring evts from ha]
    exact .inl trivial
  | _ => exact .inl h

/-- Past `on_ready` no status is `CONN_IDLE`. -/
theorem Living.ready_next (ha : Enabled s a) (h : Living s) (hp : (next s a).worker.PastReady) :
    (effect s a).1.connStatus ≠ .connIdle := by
  intro hs
  rcases effect_connStatus s a with hsame | ⟨-, hsame⟩ | ⟨-, hsame, -⟩ | ⟨-, -, ctl, rfl⟩
  · have hidle := hsame.symm.trans hs
    rcases pastReady_of_next ha hp with hp | ⟨evts, rfl⟩
    · exact h.ready hp hidle
    · rw [effect, onReady, if_pos hidle] at hs
      cases hs
  · cases hsame.symm.trans hs
  · cases hsame.symm.trans hs
  · exact hp

/-- `need_reconnect` is set by `connect` and `enable_reconnect`, and not reset. -/
theorem effect_needReconnect (ha : Enabled s a)
    (hw : s.conn.tcpWorker = false → s.conn.needReconnect = false)
    (h : (effect s a).1.needReconnect = false) : s.conn.needReconnect = false := by
  cases a with
  | accept => exact h
  | connect => exact hw ha.1
  | enableReconnect => cases h
  | timer r =>
    rw [effect, reconnectTimer] at h
    split at h
    · exact h
    · exact doConnect_opened.needReconnect.symm.trans h
  | finish ctl =>
    simp only [effect, doClose] at h
    split at h
    · split at h
      · exact h
      · exact h
    · exact h
  | _ => exact (effect_sameSetup rfl (by rintro ⟨⟩) (by rintro _ ⟨⟩)).needReconnect.symm.trans h

/-- The registered descriptors after a step of a connection that never reconnects. -/
theorem Living.registered_next (ha : Enabled s a) (h : Living s)
    (hneed : s.conn.needReconnect = false) :
    ∀ sd ∈ registered (next s a).trace, 0 < sd ∧ sd = (effect s a).1.connSd := by
  rcases h.single hneed with ⟨htimer, hreg, -⟩
  intro sd hsd
  rw [next_trace, registered_append] at hsd
  cases ho : opens s a with
  | none =>
    by_cases hclose : ∃ ctl, a = .finish ctl ∧ s.conn.connStatus = .connClosing
    · rcases hclose with ⟨ctl, rfl, hs⟩
      rw [effect, doClose_registered hreg hneed hs] at hsd
      cases hsd
    · have hsame : (effect s a).1.connSd = s.conn.connSd := by
        by_cases hf : ∃ ctl, a = .finish ctl
        · rcases hf with ⟨ctl, rfl⟩
          rw [effect, doClose, if_neg fun hs => hclose ⟨ctl, rfl, hs⟩]
        · exact (effect_connSd ho fun ctl h => hf ⟨ctl, h⟩).1
      rw [hsame]
      exact hreg sd (foldl_register_mem (kind_of_opens ho) hsd)
  | some sd' =>
    rcases effect_of_opens ha ho with ⟨⟨evs, hevs, hsetup⟩, hconn, -⟩
    have hunborn : Unborn s := by
      cases a with
      | accept => exact h.unborn ha.1
      | connect => exact h.unborn ha.1
      | timer r => cases htimer.symm.trans ha.1
      | _ => cases ho
    rw [hevs, List.foldl_cons] at hsd
    rw [hconn]
    rcases foldl_register_setsUp hsetup hsd with hmem | ⟨hpos, rfl⟩
    · rw [hunborn.registered] at hmem
      cases hmem
    · exact ⟨hpos, rfl⟩

theorem pending_of_waiting (h : s.worker = .waiting) : pending s = s.batch.length := by
  rw [pending, if_pos h, Nat.add_zero]

theorem pending_of_busy (h : s.worker ≠ .waiting) : pending s = s.batch.length + 1 := by
  rw [pending, if_neg h]

theorem pending_le : pending s ≤ s.batch.length + 1 := by
  rw [pending]
  split
  · exact Nat.le_succ _
  · exact Nat.le_refl _

theorem length_le_one_of_nodup {evs : List (Int × EpollEvents)} (hd : (evs.map (·.1)).Nodup)
    (h : ∀ e ∈ evs, e.1 = sd) : evs.length ≤ 1 := by
  cases evs with
  | nil => exact Nat.zero_le 1
  | cons e evs =>
    cases evs with
    | nil => exact Nat.le_refl 1
    | cons e' evs =>
      have heq : e.1 = e'.1 := (h e (.head _)).trans (h e' (.tail _ (.head _))).symm
      exact absurd (List.mem_cons.2 (.inl heq)) (List.nodup_cons.1 hd).1

/-- With one descriptor there is one event under way at most. -/
theorem Living.pending_next (ha : Enabled s a) (h : Living s)
    (hneed : s.conn.needReconnect = false) : pending (next s a) ≤ 1 := by
  rcases h.single hneed with ⟨-, hreg, hpend⟩
  have busy : s.worker ≠ .waiting → (next s a).batch = s.batch → pending (next s a) ≤ 1 := by
    intro hw hbatch
    rw [pending_of_busy hw, ← hbatch] at hpend
    exact Nat.le_trans pending_le hpend
  cases a with
  | epollWait evs =>
    have hlen := length_le_one_of_nodup ha.2.2.1 fun e he => (hreg e.1 (ha.2.2.2 e he)).2
    have hw : (next s (.epollWait evs)).worker = .waiting := ha.1
    rw [pending_of_waiting hw]
    exact (List.length_map _).trans_le hlen
  | processEvent evts =>
    rw [pending_of_waiting ha.1] at hpend
    refine Nat.le_trans pending_le (Nat.succ_le_succ ?_)
    exact (List.length_tail.trans_le (Nat.sub_le_of_le_add hpend))
  | onReady evts => exact busy (by rw [show s.worker = .entered evts from ha]; simp) rfl
  | read evts hp r ctl => exact busy (by rw [ha.1]; simp) rfl
  | write evts r ctl => exact busy (by rw [ha.1]; simp) rfl
  | error evts ctl => exact busy (by rw [show s.worker = .erring evts from ha]; simp) rfl
  | finish ctl => exact busy (by rw [show s.worker = .checking from ha]; simp) rfl
  | accept | connect | enableReconnect | timer | msend | push | send | close => exact hpend

/-- The timer registers nothing for a connection in `CONN_CLOSED`. -/
theorem Living.registered_of_closed (ha : Enabled s a) (hc : ClosesReady s a) (h : Living s)
    (hclosed : s.conn.connStatus = .connClosed) : registered (next s a).trace = [] := by
  rw [next_trace, registered_append, (h.closed hclosed).2.2, List.eq_nil_iff_forall_not_mem]
  intro sd hsd
  cases ho : opens s a with
  | none => exact List.not_mem_nil (foldl_register_mem (kind_of_opens ho) hsd)
  | some sd' =>
    cases a with
    | accept => exact (h.unborn ha.1).connStatus hclosed
    | connect => exact (h.unborn ha.1).connStatus hclosed
    | timer r =>
      rw [effect, reconnectTimer] at hsd
      split at hsd
      · cases hsd
      · exact List.not_mem_nil (doConnect_registered (hc hclosed) hsd)
    | _ => cases ho

/-- In `CONN_CLOSED` the worker has nothing more to do for the connection. -/
theorem Living.closed_next (ha : Enabled s a) (hc : ClosesReady s a) (h : Living s)
    (hs : (effect s a).1.connStatus = .connClosed) :
    (next s a).worker = .waiting ∧ (next s a).batch = [] ∧ registered (next s a).trace = [] := by
  rcases effect_closed hs with hclosed | ⟨hclosing, hneed, ctl, rfl⟩
  · rcases h.closed hclosed with ⟨hw, hb, hr⟩
    refine ⟨?_, ?_, h.registered_of_closed ha hc hclosed⟩
    · cases a with
      | processEvent evts =>
        have hhead := ha.2
        rw [hb] at hhead
        cases hhead
      | onReady | error => cases hw.symm.trans ha
      | read | write => cases hw.symm.trans ha.1
      | finish => rfl
      | _ => exact hw
    · cases a with
      | processEvent evts => exact (congrArg List.tail hb).trans rfl
      | epollWait evs =>
        have hevs : evs = [] := List.eq_nil_iff_forall_not_mem.2 fun e he => by
          have hmem := ha.2.2.2 e he
          rw [hr] at hmem
          cases hmem
        subst hevs
        rfl
      | _ => exact hb
  · rcases h.single hneed with ⟨-, hreg, hpend⟩
    rw [pending_of_busy (by rw [show s.worker = .checking from ha]; simp)] at hpend
    refine ⟨rfl, List.length_eq_zero_iff.1 (Nat.le_zero.1 (Nat.le_of_succ_le_succ hpend)), ?_⟩
    rw [next_trace, registered_append, effect, doClose_registered hreg hneed hclosing]

theorem Living.next (ha : Enabled s a) (hc : ClosesReady s a) (h : Living s) :
    Living (next s a) := by
  refine ⟨fun hw => unborn_next ha hw (h.unborn (effect_tcpWorker hw)), h.ready_next ha,
    h.closed_next ha hc, fun hneed => ?_⟩
  have hneed' := effect_needReconnect ha h.unborn_needReconnect hneed
  refine ⟨?_, h.registered_next ha hneed', h.pending_next ha hneed'⟩
  cases a with
  | enableReconnect => cases hneed
  | _ => exact (h.single hneed').1

/-! ## Sessions -/

/-- The callbacks so far, with the status of the session that goes on. -/
structure Sessioned (s : Sys) (whole : List (List (List UInt8)))
    (live : Option (List (List UInt8))) : Prop where
  sequence : callbacks s.trace =
    list (.handleEvent .evtConnect) (.handleEvent .evtDisconnect) .handleData whole live
  status : live.isSome = true ↔
    s.conn.connStatus = .connOpen ∨ s.conn.connStatus = .connClosing
  once : s.conn.needReconnect = false →
    whole = [] ∨ s.conn.connStatus = .connClosed ∧ whole.length = 1

theorem doSend_status_of_ne {r : SendAnswer} (h : r = .failed → c.sendBuffer = []) :
    (doSend c r ctl).1.connStatus = c.connStatus := by
  unfold doSend
  split
  · rfl
  · next hbuf =>
    cases r with
    | again => rfl
    | failed => exact absurd (h rfl) hbuf
    | count rc =>
      dsimp only
      split
      · rfl
      · rfl

/-- Before `EVT_CONNECT` nothing closes the connection. -/
theorem Living.not_closing (ha : Enabled s a) (hc : ClosesReady s a) (h : Living s)
    (hidle : s.conn.connStatus = .connIdle) : (effect s a).1.connStatus ≠ .connClosing := by
  have same : (effect s a).1.connStatus = s.conn.connStatus →
      (effect s a).1.connStatus ≠ .connClosing := by
    intro hsame
    rw [hsame, hidle]
    rintro ⟨⟩
  cases a with
  | accept | enableReconnect | msend | push | epollWait | processEvent => exact same rfl
  | connect b r => exact same (effect_of_opens ha rfl).2.2.2
  | timer r =>
    cases ho : opens s (.timer r) with
    | some sd => exact same (effect_of_opens ha ho).2.2.2
    | none =>
      simp only [opens] at ho
      split at ho
      · next hopen =>
        rw [effect, reconnectTimer, if_pos hopen, hidle]
        rintro ⟨⟩
      · cases ho
  | send t r ctl =>
    refine same (doSend_status_of_ne fun hr => ?_)
    by_contra hbuf
    exact hc hr hbuf hidle
  | close ctl => exact absurd hidle hc
  | onReady evts =>
    rw [effect, onReady, if_pos hidle]
    rintro ⟨⟩
  | read evts hp r ctl => exact absurd hidle (h.ready (by rw [ha.1]; trivial))
  | write evts r ctl => exact absurd hidle (h.ready (by rw [ha.1]; trivial))
  | error evts ctl =>
    exact absurd hidle (h.ready (by rw [show s.worker = .erring evts from ha]; trivial))
  | finish ctl =>
    exact absurd hidle (h.ready (by rw [show s.worker = .checking from ha]; trivial))

/-- Without `EVT_CONNECT` and `EVT_DISCONNECT` the status can go from `CONN_OPEN` to `CONN_CLOSING`. -/
theorem Living.status_next (ha : Enabled s a) (hc : ClosesReady s a) (h : Living s)
    (hready : ∀ evts, a = .onReady evts → s.conn.connStatus ≠ .connIdle)
    (hfinish : ∀ ctl, a = .finish ctl → s.conn.connStatus ≠ .connClosing) :
    (effect s a).1.connStatus = s.conn.connStatus ∨
      s.conn.connStatus = .connOpen ∧ (effect s a).1.connStatus = .connClosing := by
  rcases effect_connStatus s a with hsame | ⟨hlt, hsame⟩ | ⟨hs, -, evts, rfl⟩ | ⟨hs, -, ctl, rfl⟩
  · exact .inl hsame
  · refine .inr ⟨?_, hsame⟩
    cases hst : s.conn.connStatus with
    | connIdle => exact absurd hsame (h.not_closing ha hc hst)
    | connOpen => rfl
    | connClosing => exact absurd (hst ▸ hlt) (by decide)
    | connClosed => exact absurd (hst ▸ hlt) (by decide)
  · exact absurd hs (hready evts rfl)
  · exact absurd hs (hfinish ctl rfl)

/-- The worker reads for the application only while a session goes on. -/
theorem Sessioned.live_of_reading {whole : List (List (List UInt8))}
    {live : Option (List (List UInt8))} {evts : EpollEvents} (h : Living s)
    (hs : Sessioned s whole live) (hw : s.worker = .reading evts) : live.isSome = true := by
  have hpast : s.worker.PastReady := by
    rw [hw]
    trivial
  rw [hs.status]
  cases hst : s.conn.connStatus with
  | connIdle => exact absurd hst (h.ready hpast)
  | connOpen => exact .inl rfl
  | connClosing => exact .inr rfl
  | connClosed => cases (h.closed hst).1.symm.trans hw

theorem callbacks_effect_read {evts : EpollEvents} {hp : PackageHandler} {r : RecvAnswer} :
    callbacks (effect s (.read evts hp r ctl)).2 =
      (packages (effect s (.read evts hp r ctl)).2).map .handleData := by
  refine callbacks_eq_map fun e he hk => ?_
  have := effect_kind he
  simp [hk, Action.kinds] at this

/-- The other steps call nothing. -/
theorem callbacks_effect_eq_nil (hread : ∀ evts hp r ctl, a ≠ .read evts hp r ctl)
    (hready : ∀ evts, a = .onReady evts → s.conn.connStatus ≠ .connIdle)
    (hfinish : ∀ ctl, a = .finish ctl → s.conn.connStatus ≠ .connClosing) :
    callbacks (effect s a).2 = [] := by
  cases a with
  | onReady evts =>
    rw [effect, onReady, if_neg (hready evts rfl)]
    rfl
  | finish ctl =>
    rw [effect, doClose, if_neg (hfinish ctl rfl)]
    rfl
  | read evts hp r ctl => exact absurd rfl (hread evts hp r ctl)
  | _ =>
    refine callbacks_eq_nil fun e he => ⟨fun hk => ?_, fun hk => ?_⟩
    · have := effect_kind he
      simp [hk, Action.kinds] at this
    · have := effect_kind he
      simp [hk, Action.kinds] at this

/-- A step that neither raises `EVT_CONNECT` nor `EVT_DISCONNECT`. -/
theorem Sessioned.next_data {whole : List (List (List UInt8))} {live : Option (List (List UInt8))}
    (ha : Enabled s a) (hc : ClosesReady s a) (h : Living s) (hs : Sessioned s whole live)
    (hready : ∀ evts, a = .onReady evts → s.conn.connStatus ≠ .connIdle)
    (hfinish : ∀ ctl, a = .finish ctl → s.conn.connStatus ≠ .connClosing) :
    ∃ live', Sessioned (next s a) whole live' := by
  have hstatus := h.status_next ha hc hready hfinish
  have hlive : live.isSome = true ↔
      (effect s a).1.connStatus = .connOpen ∨ (effect s a).1.connStatus = .connClosing := by
    rw [hs.status]
    rcases hstatus with hsame | ⟨hopen, hclosing⟩
    · rw [hsame]
    · rw [hopen, hclosing]
      decide
  have honce : (effect s a).1.needReconnect = false →
      whole = [] ∨ (effect s a).1.connStatus = .connClosed ∧ whole.length = 1 := by
    intro hneed
    rcases hs.once (effect_needReconnect ha h.unborn_needReconnect hneed) with hnil | ⟨hclosed, hlen⟩
    · exact .inl hnil
    · refine .inr ⟨?_, hlen⟩
      rcases hstatus with hsame | ⟨hopen, -⟩
      · exact hsame.trans hclosed
      · cases hopen.symm.trans hclosed
  by_cases hread : ∃ evts hp r ctl, a = .read evts hp r ctl
  · rcases hread with ⟨evts, hp, r, ctl, rfl⟩
    rcases Option.isSome_iff_exists.1 (hs.live_of_reading h ha.1) with ⟨ds, rfl⟩
    refine ⟨some (ds ++ packages (effect s (.read evts hp r ctl)).2), ?_, hlive, honce⟩
    rw [next_trace, callbacks_append, callbacks_effect_read]
    exact list_data hs.sequence
  · refine ⟨live, ?_, hlive, honce⟩
    rw [next_trace, callbacks_append, callbacks_effect_eq_nil ?_ hready hfinish, List.append_nil]
    · exact hs.sequence
    · exact fun evts hp r ctl h => hread ⟨evts, hp, r, ctl, h⟩

/-- Every step extends the sequence of sessions. -/
theorem sessioned_next (ha : Enabled s a) (hc : ClosesReady s a) (h : Living s)
    (hs : ∃ whole live, Sessioned s whole live) : ∃ whole live, Sessioned (next s a) whole live := by
  rcases hs with ⟨whole, live, hs⟩
  by_cases hready : ∃ evts, a = .onReady evts ∧ s.conn.connStatus = .connIdle
  · -- `EVT_CONNECT` begins a session
    rcases hready with ⟨evts, rfl, hidle⟩
    have hnone : live = none := by
      rw [← Option.not_isSome_iff_eq_none, hs.status, hidle]
      decide
    subst hnone
    refine ⟨whole, some [], ?_, ?_, fun hneed => ?_⟩
    · rw [next_trace, callbacks_append, effect, callbacks_onReady hidle]
      exact list_start hs.sequence
    · rw [next_conn, effect, onReady, if_pos hidle]
      exact iff_of_true rfl (.inl rfl)
    · rcases hs.once (effect_needReconnect ha h.unborn_needReconnect hneed) with hnil | ⟨hclosed, -⟩
      · exact .inl hnil
      · cases hidle.symm.trans hclosed
  by_cases hfinish : ∃ ctl, a = .finish ctl ∧ s.conn.connStatus = .connClosing
  · -- `EVT_DISCONNECT` ends it
    rcases hfinish with ⟨ctl, rfl, hclosing⟩
    rcases Option.isSome_iff_exists.1 (hs.status.2 (.inr hclosing)) with ⟨ds, rfl⟩
    have hstatus : (effect s (.finish ctl)).1.connStatus =
        if s.conn.needReconnect then .connIdle else .connClosed := by
      rw [effect, doClose, if_pos hclosing]
      split
      · rfl
      · rfl
    refine ⟨whole ++ [ds], none, ?_, ?_, fun hneed => ?_⟩
    · rw [next_trace, callbacks_append, effect, callbacks_doClose hclosing]
      exact list_stop hs.sequence
    · rw [next_conn, hstatus]
      split
      · decide
      · decide
    · have hneed' := effect_needReconnect ha h.unborn_needReconnect hneed
      rcases hs.once hneed' with rfl | ⟨hclosed, -⟩
      · refine .inr ⟨?_, rfl⟩
        rw [next_conn, hstatus, hneed']
        rfl
      · cases hclosing.symm.trans hclosed
  · rcases hs.next_data ha hc h (fun evts ha hidle => hready ⟨evts, ha, hidle⟩)
      (fun ctl ha hclosing => hfinish ⟨ctl, ha, hclosing⟩) with ⟨live', hs'⟩
    exact ⟨whole, live', hs'⟩

theorem Sessioned.lifeCycle {whole : List (List (List UInt8))}
    {live : Option (List (List UInt8))} (hs : Sessioned s whole live) : LifeCycle s := by
  refine ⟨whole, live, hs.sequence, fun hneed => ?_⟩
  rcases hs.once hneed with rfl | ⟨hclosed, hlen⟩
  · cases live with
    | none => exact Nat.zero_le 1
    | some ds => exact Nat.le_refl 1
  · have hnone : live = none := by
      rw [← Option.not_isSome_iff_eq_none, hs.status, hclosed]
      decide
    rw [hnone, hlen]
    exact Nat.le_refl 1

/-- **The application sees sessions** in every run in which no `close()` takes effect in `CONN_IDLE`
and the timer connects nothing in `CONN_CLOSED`. -/
theorem lifeCycle_of_steps (h : machine.Runs (Sys.start buf) as)
    (hc : machine.Steps ClosesReady (Sys.start buf) as) :
    LifeCycle (machine.exec (Sys.start buf) as) := by
  have hinv := h.invariant_of_steps
    (I := fun s => Living s ∧ ∃ whole live, Sessioned s whole live) ?_ hc ⟨?_, [], none, ?_⟩
  · rcases hinv.2 with ⟨whole, live, hs⟩
    exact hs.lifeCycle
  · rintro s a ha hc ⟨hl, hs⟩
    exact ⟨hl.next ha hc, sessioned_next ha hc hl hs⟩
  · refine ⟨fun _ => unborn_start, fun h => h.elim, by rintro ⟨⟩, fun _ => ⟨rfl, ?_, Nat.zero_le 1⟩⟩
    exact List.forall_mem_nil _
  · refine ⟨rfl, iff_of_false Bool.false_ne_true ?_, fun _ => .inl rfl⟩
    rintro (⟨⟨⟩⟩ | ⟨⟨⟩⟩)

/-- Two sessions of a connection that reconnects. -/
def twoSessions : List Action :=
  let process (sd : Int) (r : RecvAnswer) : List Action :=
    [.epollWait [(sd, epollIn)], .processEvent epollIn, .onReady epollIn,
      .read epollIn handlePackage r true, .write epollIn .again true, .error epollIn true,
      .finish true]
  [.connect true ⟨5, true, true, true⟩, .enableReconnect] ++ process 5 (.data [1, 2]) ++
    process 5 (.data []) ++ [.timer ⟨6, true, true, true⟩] ++ process 6 .again ++ [.close true]

theorem lifeCycle_of_steps_twoSessions :
    LifeCycle (machine.exec (Sys.start fun _ => 0) twoSessions) :=
  lifeCycle_of_steps (by decide) (by decide)

/-- `close()` before the first event of an accepted connection. -/
theorem disconnect_without_connect : ¬ ∀ as : List Action,
    machine.Runs (Sys.start fun _ => 0) as → LifeCycle (machine.exec (Sys.start fun _ => 0) as) := by
  intro h
  let as : List Action :=
    [.accept 5 true, .close true, .epollWait [(5, epollOut)], .processEvent epollOut,
      .onReady epollOut, .read epollOut handlePackage .again true,
      .write epollOut .again true, .error epollOut true, .finish true]
  have hcalls : callbacks (machine.exec (Sys.start fun _ => 0) as).trace =
    [.handleEvent .evtDisconnect] := by decide
  rcases h as (by decide) with ⟨whole, live, heq, -⟩
  rw [hcalls] at heq
  cases whole with
  | nil =>
    cases live with
    | none => cases heq
    | some ds => cases heq
  | cons ds whole => cases heq

end SNet.Tcp
