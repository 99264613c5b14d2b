import SNet.Tcp.Setup

/-!
# Pending output

`msend` leaves a message in `send_buffer` to the thread or the worker that is about to send, and
`do_send` leaves what the socket does not take to the next `EPOLLOUT`. So while nobody is to send,
`EPOLLOUT` is asked for wherever something is pending (`NoStuckOutput`), and a new descriptor is
registered with it. But `do_connect` may leave an older descriptor registered, whose event then lets
`on_ready` open a connection that `do_close` has just taken out of the epoll set
(`output_stuck`). `noStuckOutput_of_steps` says that nothing else goes wrong.
-/

namespace SNet.Tcp

variable {c : TcpConnection} {s : Sys} {a : Action} {as : List Action} {buf : Nat → UInt8}
  {re : Bool} {sd sd' : Int} {evts : EpollEvents} {e : Event} {tr evs : List Event}
  {i : Option EpollEvents}

/-! ## The property and its condition -/

/-- The interest in `sd` that is registered with epoll after an event. -/
def Event.interest (sd : Int) (i : Option EpollEvents) : Event → Option EpollEvents
  | .epollCtl .add sd' evts true | .epollCtl .mod sd' evts true => if sd' = sd then some evts else i
  | .epollCtl .del sd' _ true | .closeSd _ sd' => if sd' = sd then none else i
  | _ => i

/-- The interest in `sd` that is registered with epoll. -/
def interest (tr : List Event) (sd : Int) : Option EpollEvents := tr.foldl (Event.interest sd) none

/-- Whether the worker is inside the recursion of `do_send` after a step. -/
def resends (s : Sys) (a : Action) (re : Bool) : Bool :=
  match a with
  | .write evts r _ => if evts.has epollOut then sendsAgain s.conn r else re
  | _ => re

/-- Nobody has yet to send: no thread is between its append and the end of its `do_send`, and the
worker is not inside the recursion. -/
def Unowed (s : Sys) (re : Bool) : Prop := (∀ t, s.threads t ≠ .sending) ∧ re = false

/-- `EPOLLOUT` is set in `epoll_events` and in the interest that is registered for `conn_sd`. -/
def Announced (s : Sys) : Prop :=
  s.conn.epollEvents.has epollOut = true ∧
    ∃ evts, interest s.trace s.conn.connSd = some evts ∧ evts.has epollOut = true

/-- An open connection with output that nobody has yet to send waits for `EPOLLOUT`. -/
def NoStuckOutput (s : Sys) (re : Bool) : Prop :=
  s.conn.connStatus = .connOpen → s.conn.sendBuffer ≠ [] → Unowed s re → Announced s

/-- Every `epoll_ctl` of the step succeeds. -/
def CtlSucceeds : Action → Prop
  | .accept _ ctl | .send _ _ ctl | .close ctl | .read _ _ _ ctl | .write _ _ ctl | .error _ ctl
  | .finish ctl => ctl = true
  | .connect _ r | .timer r => r.ctl = true
  | .enableReconnect | .msend .. | .push .. | .epollWait _ | .processEvent _ | .onReady _ => True

instance CtlSucceeds.decidable : ∀ a, Decidable (CtlSucceeds a)
  | .accept .. | .send .. | .close _ | .read .. | .write .. | .error .. | .finish _ | .connect ..
  | .timer _ => inferInstanceAs (Decidable (_ = _))
  | .enableReconnect | .msend .. | .push .. | .epollWait _ | .processEvent _ | .onReady _ =>
    inferInstanceAs (Decidable True)

/-- `on_ready` opens a connection only where `conn_sd` is registered with epoll. -/
def OpensRegistered (s : Sys) : Action → Prop
  | .onReady _ => s.conn.connStatus = .connIdle → s.conn.connSd ∈ registered s.trace
  | _ => True

instance OpensRegistered.decidable (s : Sys) : ∀ a, Decidable (OpensRegistered s a)
  | .onReady _ => inferInstanceAs (Decidable (_ → _))
  | .accept .. | .connect .. | .enableReconnect | .timer _ | .msend .. | .push .. | .send ..
  | .close _ | .epollWait _ | .processEvent _ | .read .. | .write .. | .error .. | .finish _ =>
    inferInstanceAs (Decidable True)

/-! ## The interest -/

theorem interest_append :
    interest (tr ++ evs) sd = evs.foldl (Event.interest sd) (interest tr sd) := List.foldl_append

theorem has_or_epollOut : (evts ||| epollOut).has epollOut = true := by
  rw [EpollEvents.has, beq_iff_eq]
  ext j hj
  simp only [BitVec.getElem_and, BitVec.getElem_or]
  cases epollOut[j] <;> simp

/-- Events of other kinds leave the interest alone. -/
theorem foldl_interest
    (h : ∀ e ∈ evs, e.kind = .status ∨ e.kind = .receive ∨ e.kind = .append) :
    evs.foldl (Event.interest sd) i = i := by
  induction evs with
  | nil => rfl
  | cons e evs ih =>
    rcases List.forall_mem_cons.1 h with ⟨he, hevs⟩
    have hstep : e.interest sd i = i := by
      cases e with
      | epollCtl op => cases op <;> rcases he with he | he | he <;> cases he
      | closeSd site => cases site <;> rcases he with he | he | he <;> cases he
      | _ => rfl
    rw [List.foldl_cons, hstep]
    exact ih hevs

theorem foldl_interest_modEvent (hsd : 0 < sd) :
    (modEvent sd evts true).foldl (Event.interest sd) i = some evts := by
  rw [modEvent, if_pos hsd]
  exact if_pos rfl

theorem foldl_interest_addEvent (hsd : 0 < sd) :
    (addEvent sd evts true).foldl (Event.interest sd) i = some evts := by
  rw [addEvent, if_pos hsd]
  exact if_pos rfl

/-! ## What the functions do to pending output -/

/-- The connection is to be closed, or is closed. -/
def TcpConnection.Shutting (c : TcpConnection) : Prop :=
  c.connStatus = .connClosing ∨ c.connStatus = .connClosed

theorem close_shutting {ctl : Bool} : (close c ctl).1.Shutting := by
  rw [TcpConnection.Shutting, close_status]
  cases c.connStatus <;> decide

/-- `do_send` ends with nothing pending, with a closing connection, or with `EPOLLOUT` asked for,
unless it calls itself again. -/
theorem doSend_pending {r : SendAnswer} (hr : r.Possible c) (hagain : sendsAgain c r = false) :
    (doSend c r true).1.sendBuffer = [] ∨ (doSend c r true).1.Shutting ∨
      (doSend c r true).1.epollEvents.has epollOut = true ∧
        ∃ evts, (doSend c r true).2.foldl (Event.interest c.connSd) i = some evts ∧
          evts.has epollOut = true := by
  unfold doSend
  split
  · next hbuf => exact .inl hbuf
  · cases r with
    | again =>
      refine .inr (.inr ⟨has_or_epollOut, c.epollEvents ||| epollOut, ?_, has_or_epollOut⟩)
      exact foldl_interest_modEvent hr
    | failed => exact .inr (.inl close_shutting)
    | count rc =>
      have hall : ¬ (0 < rc ∧ rc < c.sendBuffer.length) := by simpa [sendsAgain] using hagain
      dsimp only
      rw [if_neg hall]
      exact .inl rfl

/-- `do_read` leaves the interest alone, or closes. -/
theorem doRead_pending {hp : PackageHandler} {r : RecvAnswer} {ctl : Bool} :
    (doRead hp c r ctl).1.Shutting ∨
      (doRead hp c r ctl).1.epollEvents = c.epollEvents ∧
        (doRead hp c r ctl).1.connStatus = c.connStatus ∧
        ∀ e ∈ (doRead hp c r ctl).2.1, e.kind = .receive := by
  have hdata : ∀ (c : TcpConnection) (n : Nat), (processData hp c n ctl).1.Shutting ∨
      (processData hp c n ctl).1.epollEvents = c.epollEvents ∧
        (processData hp c n ctl).1.connStatus = c.connStatus ∧
        ∀ e ∈ (processData hp c n ctl).2.1, e.kind = .receive := by
    intro c n
    rw [processData]
    dsimp only
    split
    · exact .inl close_shutting
    · refine .inr ⟨rfl, rfl, fun e he => ?_⟩
      rcases List.mem_map.1 he with ⟨p, -, rfl⟩
      rfl
  unfold doRead
  split
  · split
    · exact .inr ⟨rfl, rfl, List.forall_mem_singleton.2 rfl⟩
    · exact .inl close_shutting
    · exact .inl close_shutting
    · refine (hdata _ _).imp_right ?_
      rintro ⟨hev, hst, hkind⟩
      exact ⟨hev, hst, List.forall_mem_cons.2 ⟨rfl, hkind⟩⟩
  · exact hdata _ _

/-! ## Runs -/

/-- Output that nobody has yet to send is announced where the next event may find the connection
open. -/
def Pending (s : Sys) (re : Bool) : Prop :=
  s.conn.connStatus = .connOpen ∨
      s.conn.connStatus = .connIdle ∧ s.conn.connSd ∈ registered s.trace →
    s.conn.sendBuffer ≠ [] → Unowed s re → Announced s

/-- How pending output goes with the status and the registered descriptors. -/
structure Flushing (s : Sys) (re : Bool) : Prop where
  unborn : s.conn.tcpWorker = false → Unborn s
  sockets : ∀ sd ∈ registered s.trace, 0 < sd ∧ .socket sd ∈ s.trace
  opened : s.conn.connStatus = .connOpen → 0 < s.conn.connSd
  pending : Pending s re

theorem Flushing.sockets_next (h : Flushing s re) (ha : Enabled s a) :
    ∀ sd ∈ registered (next s a).trace, 0 < sd ∧ .socket sd ∈ (next s a).trace := by
  intro sd hsd
  rw [next_trace, registered_append] at hsd
  rw [next_trace, List.mem_append]
  cases ho : opens s a with
  | none => exact (h.sockets sd (foldl_register_mem (kind_of_opens ho) hsd)).imp_right .inl
  | some sd' =>
    rcases effect_of_opens ha ho with ⟨⟨evs, hevs, hsetup⟩, -⟩
    rw [hevs, List.foldl_cons] at hsd
    rcases foldl_register_setsUp hsetup hsd with hmem | ⟨hpos, rfl⟩
    · exact (h.sockets sd hmem).imp_right .inl
    · exact ⟨hpos, .inr (hevs ▸ .head _)⟩

/-- A connection that nobody has set up is not open. -/
theorem Flushing.not_unborn (h : Flushing s re) (hs : s.conn.connStatus = .connOpen) :
    s.conn.tcpWorker ≠ false := by
  intro hw
  have hpos := h.opened hs
  rw [(h.unborn hw).connSd] at hpos
  exact absurd hpos (by decide)

/-- A descriptor is opened for a connection that is not open only. -/
theorem Flushing.not_opens (h : Flushing s re) (ha : Enabled s a)
    (hs : s.conn.connStatus = .connOpen) : opens s a = none := by
  cases a with
  | accept fd ctl => exact absurd ha.1 (h.not_unborn hs)
  | connect b r => exact absurd ha.1 (h.not_unborn hs)
  | timer r =>
    rw [opens, if_pos]
    rw [TcpConnection.isOpen, hs, decide_eq_true (h.opened hs)]
    rfl
  | _ => rfl

theorem Flushing.opened_next (h : Flushing s re) (ha : Enabled s a) (hc : OpensRegistered s a)
    (hs : (effect s a).1.connStatus = .connOpen) : 0 < (effect s a).1.connSd := by
  rcases effect_connStatus s a with hsame | ⟨-, hsame⟩ | ⟨hidle, -, evts, rfl⟩ | ⟨-, hsame, -⟩
  · have hopen := hsame.symm.trans hs
    by_cases hf : ∃ ctl, a = .finish ctl
    · rcases hf with ⟨ctl, rfl⟩
      rw [effect, doClose, if_neg (by rw [hopen]; rintro ⟨⟩)]
      exact h.opened hopen
    · rw [(effect_connSd (h.not_opens ha hopen) fun ctl h => hf ⟨ctl, h⟩).1]
      exact h.opened hopen
  · cases hsame.symm.trans hs
  · rw [effect, onReady_sameSetup.connSd]
    exact (h.sockets _ (hc hidle)).1
  · rw [hsame] at hs
    split at hs
    · cases hs
    · cases hs

theorem pending_of_shutting (h : s.conn.Shutting) : Pending s re := by
  rintro (hopen | ⟨hidle, -⟩)
  · rcases h with h | h <;> cases h.symm.trans hopen
  · rcases h with h | h <;> cases h.symm.trans hidle

theorem announced_next (hsd : (effect s a).1.connSd = s.conn.connSd)
    (hout : (effect s a).1.epollEvents.has epollOut = true)
    (hint : ∃ evts, (effect s a).2.foldl (Event.interest s.conn.connSd)
      (interest s.trace s.conn.connSd) = some evts ∧ evts.has epollOut = true) :
    Announced (next s a) := by
  refine ⟨hout, ?_⟩
  rw [next_trace, interest_append, next_conn, hsd]
  exact hint

/-- A step that leaves the connection and the epoll set alone. -/
theorem Flushing.pending_of_still (h : Flushing s re) (ho : opens s a = none)
    (hsd : (effect s a).1.connSd = s.conn.connSd)
    (hbuf : (effect s a).1.sendBuffer ≠ [] → s.conn.sendBuffer ≠ [])
    (hev : (effect s a).1.epollEvents = s.conn.epollEvents)
    (hst : (effect s a).1.connStatus = s.conn.connStatus)
    (hkind : ∀ e ∈ (effect s a).2, e.kind = .status ∨ e.kind = .receive ∨ e.kind = .append)
    (how : Unowed (next s a) (resends s a re) → Unowed s re) :
    Pending (next s a) (resends s a re) := by
  intro hs hne hun
  have hs' : s.conn.connStatus = .connOpen ∨
      s.conn.connStatus = .connIdle ∧ s.conn.connSd ∈ registered s.trace := by
    rw [next_conn, hst, hsd, next_trace, registered_append] at hs
    exact hs.imp_right fun hs => ⟨hs.1, foldl_register_mem (kind_of_opens ho) hs.2⟩
  rcases h.pending hs' (hbuf hne) (how hun) with ⟨hout, hint⟩
  refine announced_next hsd (hev ▸ hout) ?_
  rw [foldl_interest hkind]
  exact hint

theorem Flushing.pending_of_silent (h : Flushing s re) (ho : opens s a = none)
    (heff : effect s a = (s.conn, []))
    (how : Unowed (next s a) (resends s a re) → Unowed s re) :
    Pending (next s a) (resends s a re) := by
  refine h.pending_of_still ho ?_ ?_ ?_ ?_ ?_ how
  · rw [heff]
  · rw [heff]
    exact id
  · rw [heff]
  · rw [heff]
  · rw [heff]
    exact List.forall_mem_nil _

/-- What a section of `do_send` leaves to be announced. -/
theorem pending_of_doSend {r : SendAnswer} (hr : r.Possible s.conn)
    (heff : effect s a = doSend s.conn r true)
    (hagain : Unowed (next s a) (resends s a re) → sendsAgain s.conn r = false) :
    Pending (next s a) (resends s a re) := by
  intro hs hne hun
  rcases doSend_pending hr (hagain hun) with hbuf | hshut | ⟨hout, hint⟩
  · exact absurd (by rw [next_conn, heff]; exact hbuf) hne
  · have hpending : Pending (next s a) (resends s a re) :=
      pending_of_shutting (by rw [next_conn, heff]; exact hshut)
    exact hpending hs hne hun
  · refine announced_next (heff ▸ doSend_sameSetup.connSd) (heff ▸ hout) ?_
    rw [heff]
    exact hint

/-- A new descriptor is registered with `EPOLLOUT`, or not at all. -/
theorem Flushing.pending_of_timer {r : ConnectAnswer} (h : Flushing s re)
    (hr : r.Possible s.trace) (hctl : r.ctl = true) (hopen : s.conn.isOpen = false) :
    Pending (next s (.timer r)) re := by
  intro hs hne hun
  have heff : effect s (.timer r) = doConnect s.conn r := by
    rw [effect, reconnectTimer, if_neg (by simp [hopen])]
  have hidle : s.conn.connStatus ≠ .connOpen := by
    intro hs
    rw [TcpConnection.isOpen, hs, decide_eq_true (h.opened hs)] at hopen
    cases hopen
  have hnew : r.sd ∉ registered s.trace := by
    intro hmem
    rcases h.sockets r.sd hmem with ⟨hpos, hsock⟩
    rcases hr with ⟨-, hfresh⟩ | ⟨hneg, -⟩
    · exact hfresh hsock
    · rw [hneg] at hpos
      cases hpos
  rcases doConnect_spec s.conn r with ⟨evts, evs, hspec, -⟩
  have hreg : r.sd ∈ registered (next s (.timer r)).trace := by
    rcases hs with hs | ⟨-, hs⟩
    · rw [next_conn, heff, hspec] at hs
      exact absurd hs hidle
    · rw [next_conn, heff, hspec] at hs
      exact hs
  rw [next_trace, registered_append, heff] at hreg
  unfold doConnect at heff hreg
  dsimp only at heff hreg
  split at hreg
  · exact absurd hreg hnew
  · split at hreg
    · exact absurd (List.mem_filter.1 hreg).1 hnew
    · next hpton hconn =>
      rw [if_neg hpton, if_neg hconn, hctl] at heff
      have hpos : 0 < r.sd := by
        by_contra hneg
        rw [addEvent, if_neg hneg] at hreg
        exact hnew hreg
      refine ⟨?_, s.conn.epollEvents ||| epollOut, ?_, has_or_epollOut⟩
      · rw [next_conn, heff]
        exact has_or_epollOut
      · rw [next_trace, interest_append, next_conn, heff]
        exact foldl_interest_addEvent hpos

/-- After `do_close` the descriptor is not registered any more. -/
theorem disconnect_registered {reg : List Int} (hreg : ∀ sd ∈ reg, 0 < sd)
    (hw : c.tcpWorker = false → reg = []) :
    c.connSd ∉ (disconnect c true).foldl Event.register reg := by
  intro hmem
  cases hworker : c.tcpWorker with
  | false =>
    rw [disconnect, hworker, hw hworker] at hmem
    cases hmem
  | true =>
    rw [disconnect, hworker, if_pos rfl, delEvent] at hmem
    split at hmem
    · exact of_decide_eq_true (List.mem_filter.1 hmem).2 rfl
    · next hneg => exact hneg (hreg _ hmem)

theorem Flushing.pending_of_finish (h : Flushing s re) (hs : s.conn.connStatus = .connClosing) :
    Pending (next s (.finish true)) re := by
  have hdis : s.conn.connSd ∉ registered (s.trace ++ disconnect s.conn true) := by
    rw [registered_append]
    exact disconnect_registered (fun sd hsd => (h.sockets sd hsd).1)
      fun hw => (h.unborn hw).registered
  have heff : effect s (.finish true) = doClose s.conn true := rfl
  rw [doClose, if_pos hs] at heff
  split at heff
  · rintro (hopen | ⟨-, hmem⟩)
    · rw [next_conn, heff] at hopen
      cases hopen
    · rw [next_conn, next_trace, heff] at hmem
      exact absurd hmem hdis
  · refine pending_of_shutting (.inr ?_)
    rw [next_conn, heff]

/-- A step of a thread that neither sends nor appends owes nothing more than before. -/
theorem unowed_of_threads (ht : (next s a).threads = s.threads) (hre : resends s a re = re)
    (h : Unowed (next s a) (resends s a re)) : Unowed s re := by
  rw [Unowed, ht, hre] at h
  exact h

theorem Flushing.pending_of_push {t : Nat} {frags : List Fragment} (h : Flushing s re)
    (ha : Enabled s (.push t frags)) :
    Pending (next s (.push t frags)) (resends s (.push t frags) re) := by
  by_cases hbuf : s.conn.sendBuffer = []
  · -- the pusher owes a `do_send`
    intro _ _ hun
    exact absurd ((if_pos rfl).trans (if_pos hbuf)) (hun.1 t)
  · refine h.pending_of_still rfl rfl (fun _ => hbuf) rfl rfl
      (List.forall_mem_singleton.2 (.inr (.inr rfl))) fun hun => ⟨fun u hu => ?_, hun.2⟩
    have hne : u ≠ t := by
      rintro rfl
      cases hu.symm.trans ha
    exact hun.1 u ((if_neg hne).trans hu)

/-- `on_ready` opens a connection whose output is announced for its registered descriptor. -/
theorem Flushing.pending_of_onReady (h : Flushing s re) (hc : OpensRegistered s (.onReady evts)) :
    Pending (next s (.onReady evts)) (resends s (.onReady evts) re) := by
  by_cases hidle : s.conn.connStatus = .connIdle
  · intro _ hne hun
    have heff : effect s (.onReady evts) =
        ({ s.conn with connStatus := .connOpen }, [.handleEvent .evtConnect]) := by
      rw [effect, onReady, if_pos hidle]
    rw [next_conn, heff] at hne
    rcases h.pending (.inr ⟨hidle, hc hidle⟩) hne (unowed_of_threads rfl rfl hun) with ⟨hout, hint⟩
    refine announced_next (by rw [heff]) (by rw [heff]; exact hout) ?_
    rw [heff]
    exact hint
  · have heff : effect s (.onReady evts) = (s.conn, []) := by rw [effect, onReady, if_neg hidle]
    exact h.pending_of_silent rfl heff (unowed_of_threads rfl rfl)

theorem Flushing.pending_of_read {hp : PackageHandler} {r : RecvAnswer} {ctl : Bool}
    (h : Flushing s re) :
    Pending (next s (.read evts hp r ctl)) (resends s (.read evts hp r ctl) re) := by
  cases hin : evts.has epollIn with
  | false =>
    refine h.pending_of_silent rfl ?_ (unowed_of_threads rfl rfl)
    rw [effect, hin, if_neg Bool.false_ne_true]
  | true =>
    have heff : effect s (.read evts hp r ctl) =
        ((doRead hp s.conn r ctl).1, (doRead hp s.conn r ctl).2.1) := by
      rw [effect, hin, if_pos rfl]
    rcases @doRead_pending s.conn hp r ctl with hshut | ⟨hev, hst, hkind⟩
    · exact pending_of_shutting (by rw [next_conn, heff]; exact hshut)
    · refine h.pending_of_still rfl ?_ ?_ ?_ ?_ ?_ (unowed_of_threads rfl rfl)
      · rw [heff]
        exact doRead_sameSetup.connSd
      · rw [heff, doRead_sendBuffer]
        exact id
      · rw [heff]
        exact hev
      · rw [heff]
        exact hst
      · rw [heff]
        exact fun e he => .inr (.inl (hkind e he))

theorem Flushing.pending_next (ha : Enabled s a) (hctl : CtlSucceeds a) (hc : OpensRegistered s a)
    (h : Flushing s re) : Pending (next s a) (resends s a re) := by
  cases a with
  | accept fd ctl =>
    intro hs hne
    exact absurd (h.unborn ha.1).sendBuffer hne
  | connect b r =>
    intro hs hne
    rw [next_conn, effect, connect_sameStreams.sendBuffer] at hne
    exact absurd (h.unborn ha.1).sendBuffer hne
  | enableReconnect =>
    exact h.pending_of_still rfl rfl id rfl rfl (List.forall_mem_nil _) (unowed_of_threads rfl rfl)
  | timer r =>
    cases hopen : s.conn.isOpen with
    | false => exact h.pending_of_timer ha.2.2 hctl hopen
    | true =>
      refine h.pending_of_silent (by rw [opens, if_pos hopen]) ?_ (unowed_of_threads rfl rfl)
      rw [effect, reconnectTimer, if_pos hopen]
  | msend t frags =>
    refine h.pending_of_silent rfl rfl fun hun => ⟨fun u hu => ?_, hun.2⟩
    have hnext : (next s (.msend t frags)).threads u = .sending := by
      have hne : u ≠ t := by
        rintro rfl
        cases hu.symm.trans ha
      exact (if_neg hne).trans hu
    exact hun.1 u hnext
  | push t frags => exact h.pending_of_push ha
  | send t r ctl =>
    cases hctl
    refine pending_of_doSend ha.2 rfl fun hun => ?_
    by_contra hagain
    refine hun.1 t ?_
    exact (if_pos rfl).trans (if_pos (by simpa using hagain))
  | close ctl => exact pending_of_shutting close_shutting
  | epollWait | processEvent =>
    exact h.pending_of_silent rfl rfl (unowed_of_threads rfl rfl)
  | onReady evts => exact h.pending_of_onReady hc
  | read evts hp r ctl => exact h.pending_of_read
  | write evts r ctl =>
    cases hctl
    cases hout : evts.has epollOut with
    | false =>
      refine h.pending_of_silent rfl ?_ (unowed_of_threads rfl ?_)
      · rw [effect, hout, if_neg Bool.false_ne_true]
      · rw [resends, hout, if_neg Bool.false_ne_true]
    | true =>
      refine pending_of_doSend ha.2 (by rw [effect, hout, if_pos rfl]) fun hun => ?_
      have hagain := hun.2
      rw [resends, hout, if_pos rfl] at hagain
      exact hagain
  | error evts ctl =>
    cases herr : evts.has epollErr with
    | false =>
      refine h.pending_of_silent rfl ?_ (unowed_of_threads rfl rfl)
      rw [effect, herr, if_neg Bool.false_ne_true]
    | true =>
      refine pending_of_shutting ?_
      rw [next_conn, effect, herr, if_pos rfl]
      exact close_shutting
  | finish ctl =>
    cases hctl
    by_cases hs : s.conn.connStatus = .connClosing
    · exact h.pending_of_finish hs
    · refine h.pending_of_silent rfl ?_ (unowed_of_threads rfl rfl)
      rw [effect, doClose, if_neg hs]

theorem Flushing.next (h : Flushing s re) (ha : Enabled s a) (hc : OpensRegistered s a)
    (hctl : CtlSucceeds a) : Flushing (next s a) (resends s a re) :=
  ⟨fun hw => unborn_next ha hw (h.unborn (effect_tcpWorker hw)), h.sockets_next ha,
    h.opened_next ha hc, h.pending_next ha hctl hc⟩

theorem flushing_start : Flushing (Sys.start buf) false := by
  refine ⟨fun _ => unborn_start, List.forall_mem_nil _, ?_, ?_⟩
  · rintro ⟨⟩
  · exact fun _ hne => absurd rfl hne

/-- The machine that keeps whether the worker is inside the recursion of `do_send`. -/
def resending : Machine (Sys × Bool) Action := machine.record resends

instance resending.decidableEnabled (t : Sys × Bool) (a : Action) :
    Decidable (resending.enabled t a) :=
  inferInstanceAs (Decidable (Enabled t.1 a))

/-- **No output is stuck** in every run whose `epoll_ctl` calls succeed and in which `on_ready` opens
a connection only where `conn_sd` is registered with epoll. -/
theorem noStuckOutput_of_steps (h : resending.Runs (Sys.start buf, false) as)
    (hctl : ∀ a ∈ as, CtlSucceeds a) (hp : machine.Steps OpensRegistered (Sys.start buf) as) :
    NoStuckOutput (resending.exec (Sys.start buf, false) as).1
      (resending.exec (Sys.start buf, false) as).2 := by
  have hsteps : resending.Steps (fun t a => OpensRegistered t.1 a ∧ CtlSucceeds a)
      (Sys.start buf, false) as := hp.record.and_mem hctl
  have hinv := h.invariant_of_steps (I := fun t => Flushing t.1 t.2) ?_ hsteps flushing_start
  · exact fun hopen => hinv.pending (.inl hopen)
  · exact fun t a ha hpa ih => ih.next ha hpa.1 hpa.2

/-- A message that `::send` does not take. -/
def blockedMessage : List Action :=
  accepting 5 ++ [.msend 1 [.pod [7]], .push 1 [.pod [7]], .send 1 .again true]

theorem noStuckOutput_of_steps_blockedMessage :
    NoStuckOutput (resending.exec (Sys.start fun _ => 0, false) blockedMessage).1
      (resending.exec (Sys.start fun _ => 0, false) blockedMessage).2 :=
  noStuckOutput_of_steps (by decide) (by decide) (by decide)

/-- The timer connects descriptor 6 while descriptor 5 stays registered. `close()` takes 6 out of the
epoll set; a message was appended whose `do_send` failed, and 5 is then ready. -/
def strandedMessage : List Action :=
  let processing (evts : EpollEvents) : List Action :=
    [.processEvent evts, .onReady evts, .read evts handlePackage .again true,
      .write evts .again true, .error evts true, .finish true]
  [.connect true ⟨5, true, true, true⟩, .enableReconnect, .timer ⟨6, true, true, true⟩,
      .epollWait [(5, epollOut), (6, epollOut)]] ++ processing epollOut ++ processing epollOut ++
    [.msend 1 [.pod [7]], .close true, .epollWait [(6, epollOut)], .processEvent epollOut,
      .onReady epollOut, .read epollOut handlePackage .again true, .write epollOut .again true,
      .error epollOut true, .push 1 [.pod [7]], .send 1 .failed true, .finish true,
      .epollWait [(5, epollIn)], .processEvent epollIn, .onReady epollIn]

theorem output_stuck : ¬ ∀ as : List Action, resending.Runs (Sys.start fun _ => 0, false) as →
    (∀ a ∈ as, CtlSucceeds a) → NoStuckOutput (resending.exec (Sys.start fun _ => 0, false) as).1
      (resending.exec (Sys.start fun _ => 0, false) as).2 := by
  intro h
  have hstuck := h strandedMessage (by decide) (by decide) (by decide) (by decide)
  have hunowed : Unowed (resending.exec (Sys.start fun _ => 0, false) strandedMessage).1
      (resending.exec (Sys.start fun _ => 0, false) strandedMessage).2 := by
    refine ⟨fun t => ?_, by decide⟩
    by_cases ht : t = 1
    · subst ht
      decide
    · intro hs
      cases hs.symm.trans ((if_neg ht).trans ((if_neg ht).trans (if_neg ht)))
  exact absurd (hstuck hunowed).1 (by decide)

end SNet.Tcp
