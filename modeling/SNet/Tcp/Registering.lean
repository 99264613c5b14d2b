import SNet.Tcp.Lifecycle
import SNet.Tcp.Workers

/-!
# How a connection gets into an epoll set

A connection is registered for the number in its `conn_sd` only, and `do_close` without
`need_reconnect` takes it out again before it posts the task that gives it up. In `CONN_CLOSED` no
function registers it but the timer of `enable_reconnect`, which does not look at the status, and
`do_send` with a number that this timer has left behind (`effect_enters`). `Handler.moves` is what
this says of one step.
-/

namespace SNet.Tcp

/-- The `epoll_ctl` that `do_send` makes for the answer `r` finds a descriptor. -/
def SendAnswer.Rearms (c : TcpConnection) (r : SendAnswer) (ctl : Bool) : Prop :=
  0 < c.connSd ∧ (c.sendBuffer = [] ∨ r = .again) ∧ ctl = true

/-- The steps by which a connection in `CONN_CLOSED` gets into an epoll set: the timer connects, or
`do_send` passes on the number that a `do_connect` of the timer has left in `conn_sd`. -/
def Action.Revives (c : TcpConnection) : Action → Prop
  | .timer r => r.Registers
  | .send _ r ctl => r.Rearms c ctl
  | .write evts r ctl => evts.has epollOut ∧ r.Rearms c ctl
  | _ => False

instance SendAnswer.decidableRearms (c : TcpConnection) (r : SendAnswer) (ctl : Bool) :
    Decidable (r.Rearms c ctl) := inferInstanceAs (Decidable (_ ∧ _))

instance Action.decidableRevives (c : TcpConnection) : ∀ a : Action, Decidable (a.Revives c)
  | .timer r => inferInstanceAs (Decidable r.Registers)
  | .send _ r ctl => inferInstanceAs (Decidable (r.Rearms c ctl))
  | .write .. => inferInstanceAs (Decidable (_ ∧ _))
  | .accept .. | .connect .. | .enableReconnect | .msend .. | .push .. | .close _ | .epollWait _
  | .processEvent _ | .onReady _ | .read .. | .error .. | .finish _ =>
    inferInstanceAs (Decidable False)

/-! ## Entries in the epoll set -/

variable {s : Sys} {a : Action} {c : TcpConnection} {sd sd' : Int} {ctl : Bool} {e : Event}
  {evts : EpollEvents} {hp : PackageHandler}

/-- A registration that is followed by `::close` where it failed. -/
theorem enters_of_mem {x y : Event} (hx : x.enters = if ctl then some sd' else none)
    (hy : y.enters = none)
    (he : e ∈ if 0 < sd' then x :: (if ctl then [] else [y]) else []) (h : e.enters = some sd) :
    ctl = true ∧ 0 < sd ∧ sd = sd' := by
  split at he
  · next hpos =>
    cases ctl with
    | true =>
      rw [List.mem_singleton.1 he, hx] at h
      cases h
      exact ⟨rfl, hpos, rfl⟩
    | false =>
      rcases List.mem_cons.1 he with rfl | he
      · cases hx.symm.trans h
      · rw [List.mem_singleton.1 he, hy] at h
        cases h
  · cases he

theorem addEvent_enters (he : e ∈ addEvent sd' evts ctl) (h : e.enters = some sd) :
    ctl = true ∧ 0 < sd ∧ sd = sd' := enters_of_mem (by cases ctl <;> rfl) rfl he h

theorem modEvent_enters (he : e ∈ modEvent sd' evts ctl) (h : e.enters = some sd) :
    ctl = true ∧ 0 < sd ∧ sd = sd' := enters_of_mem (by cases ctl <;> rfl) rfl he h

theorem close_enters (he : e ∈ (close c ctl).2) (h : e.enters = some sd) :
    c.connStatus ≠ .connClosed ∧ 0 < sd ∧ sd = c.connSd := by
  unfold close notifySend at he
  split at he
  · next hlt =>
    refine ⟨fun hs => by simp [hs, ConnStatus.toNat] at hlt, ?_⟩
    rcases List.mem_cons.1 he with rfl | he
    · cases h
    · dsimp only at he
      split at he
      · exact (modEvent_enters he h).2
      · cases he
  · cases he

theorem doSend_enters {r : SendAnswer} (he : e ∈ (doSend c r ctl).2) (h : e.enters = some sd) :
    (c.connStatus = .connClosed → r.Rearms c ctl) ∧ 0 < sd ∧ sd = c.connSd := by
  have hmod : ∀ {evts}, (c.sendBuffer = [] ∨ r = .again) → e ∈ modEvent c.connSd evts ctl →
      (c.connStatus = .connClosed → r.Rearms c ctl) ∧ 0 < sd ∧ sd = c.connSd := by
    intro evts hr he
    obtain ⟨hctl, hpos, hsd⟩ := modEvent_enters he h
    exact ⟨fun _ => ⟨hsd ▸ hpos, hr, hctl⟩, hpos, hsd⟩
  unfold doSend at he
  split at he
  · next hempty => exact hmod (.inl hempty) he
  cases r with
  | again =>
    rcases List.mem_cons.1 he with rfl | he
    · cases h
    · exact hmod (.inr rfl) he
  | failed =>
    rcases List.mem_cons.1 he with rfl | he
    · cases h
    · obtain ⟨hs, hsd⟩ := close_enters he h
      exact ⟨fun hclosed => absurd hclosed hs, hsd⟩
  | count rc =>
    dsimp only at he
    split at he
    · rw [List.mem_singleton.1 he] at h
      cases h
    · rw [List.mem_singleton.1 he] at h
      cases h

theorem processData_enters {n : Nat} (he : e ∈ (processData hp c n ctl).2.1)
    (h : e.enters = some sd) : c.connStatus ≠ .connClosed ∧ 0 < sd ∧ sd = c.connSd := by
  have hdata : ∀ ps : List (List UInt8), e ∉ ps.map Event.handleData := by
    intro ps he
    obtain ⟨p, -, rfl⟩ := List.mem_map.1 he
    cases h
  unfold processData at he
  dsimp only at he
  split at he
  · rcases List.mem_append.1 he with he | he
    · exact absurd he (hdata _)
    · exact close_enters (c := { c with readBufferPos := c.readBufferPos + n }) he h
  · exact absurd he (hdata _)

theorem doRead_enters {r : RecvAnswer} (he : e ∈ (doRead hp c r ctl).2.1)
    (h : e.enters = some sd) : c.connStatus ≠ .connClosed ∧ 0 < sd ∧ sd = c.connSd := by
  have hrecv : ∀ {bytes evs}, e ∈ Event.recv c.connSd bytes :: evs → e ∈ evs := by
    intro bytes evs he
    rcases List.mem_cons.1 he with rfl | he
    · cases h
    · exact he
  unfold doRead at he
  split at he
  · split at he
    · cases hrecv he
    · exact close_enters (hrecv he) h
    · exact close_enters (hrecv he) h
    · next bytes _ => exact processData_enters (c := c.receive bytes) (hrecv he) h
  · exact processData_enters he h

theorem doConnect_enters {r : ConnectAnswer} (he : e ∈ (doConnect c r).2)
    (h : e.enters = some sd) : r.Registers ∧ sd = r.sd := by
  have hsocket : ∀ {evs}, e ∈ Event.socket r.sd :: evs → e ∈ evs := by
    intro evs he
    rcases List.mem_cons.1 he with rfl | he
    · cases h
    · exact he
  have hconnect : ∀ {ok evs}, e ∈ Event.connect r.sd ok :: evs → e ∈ evs := by
    intro ok evs he
    rcases List.mem_cons.1 he with rfl | he
    · cases h
    · exact he
  unfold doConnect at he
  split at he
  · cases hsocket he
  · next hpton =>
    split at he
    · rw [List.mem_singleton.1 (hconnect (hsocket he))] at h
      cases h
    · next hconn =>
      obtain ⟨hctl, hpos, hsd⟩ := addEvent_enters (hconnect (hsocket he)) h
      exact ⟨⟨hsd ▸ hpos, by simpa using hpton, by simpa using hconn, hctl⟩, hsd⟩

theorem doClose_enters (he : e ∈ (doClose c ctl).2) : e.enters = none := by
  have hdis : e ∈ disconnect c ctl → e.enters = none := by
    intro he
    rw [disconnect, List.mem_append, List.mem_ite_nil_right, List.mem_singleton] at he
    rcases he with ⟨-, he⟩ | rfl
    · unfold delEvent at he
      split at he
      · rw [List.mem_singleton.1 he]
        rfl
      · cases he
    · rfl
  unfold doClose at he
  split at he
  · split at he
    · exact hdis he
    · rw [List.mem_append, List.mem_append, List.mem_ite_nil_right, List.mem_ite_nil_right,
        List.mem_singleton, List.mem_singleton] at he
      rcases he with he | ⟨-, rfl⟩ | ⟨-, rfl⟩
      · exact hdis he
      · rfl
      · rfl
  · cases he

/-- A connection is registered for the number in `conn_sd`, and in `CONN_CLOSED` only by the steps
that revive it. -/
theorem effect_enters (ha : Enabled s a) (he : e ∈ (effect s a).2) (h : e.enters = some sd) :
    (s.conn.connStatus = .connClosed → s.conn.tcpWorker = false ∨ a.Revives s.conn) ∧ 0 < sd ∧
      sd = (effect s a).1.connSd := by
  have hkeep : ∀ {p : Prop}, opens s a = none → (∀ ctl, a ≠ .finish ctl) →
      (s.conn.connStatus = .connClosed → p) ∧ 0 < sd ∧ sd = s.conn.connSd →
      (s.conn.connStatus = .connClosed → s.conn.tcpWorker = false ∨ p) ∧ 0 < sd ∧
        sd = (effect s a).1.connSd := by
    intro p ho hf ⟨hp, hpos, hsd⟩
    exact ⟨fun hs => .inr (hp hs), hpos, hsd.trans (effect_connSd ho hf).1.symm⟩
  have hclose : s.conn.connStatus ≠ .connClosed ∧ 0 < sd ∧ sd = s.conn.connSd →
      (s.conn.connStatus = .connClosed → a.Revives s.conn) ∧ 0 < sd ∧ sd = s.conn.connSd :=
    And.imp_left fun hne hs => absurd hs hne
  cases a with
  | accept fd ctl =>
    rcases List.mem_cons.1 he with rfl | he
    · cases h
    · obtain ⟨-, hpos, rfl⟩ := addEvent_enters he h
      exact ⟨fun _ => .inl ha.1, hpos, (if_pos hpos).symm⟩
  | connect b r =>
    obtain ⟨hr, rfl⟩ := doConnect_enters he h
    exact ⟨fun _ => .inl ha.1, hr.1, doConnect_opened.connSd.symm⟩
  | timer r =>
    simp only [effect, reconnectTimer] at he ⊢
    split at he
    · cases he
    · next hopen =>
      obtain ⟨hr, rfl⟩ := doConnect_enters he h
      rw [if_neg hopen]
      exact ⟨fun _ => .inr hr, hr.1, doConnect_opened.connSd.symm⟩
  | enableReconnect | msend | epollWait | processEvent => cases he
  | push t frags =>
    rw [List.mem_singleton.1 he] at h
    cases h
  | send t r ctl => exact hkeep rfl (by rintro _ ⟨⟩) (doSend_enters he h)
  | close ctl => exact hkeep rfl (by rintro _ ⟨⟩) (hclose (close_enters he h))
  | onReady evts =>
    simp only [effect, onReady] at he
    split at he
    · rw [List.mem_singleton.1 he] at h
      cases h
    · cases he
  | read evts hp r ctl =>
    refine hkeep rfl (by rintro _ ⟨⟩) (hclose ?_)
    simp only [effect] at he
    split at he
    · exact doRead_enters he h
    · cases he
  | write evts r ctl =>
    refine hkeep rfl (by rintro _ ⟨⟩) ?_
    simp only [effect] at he
    split at he
    · next hout =>
      exact (doSend_enters he h).imp_left fun hr hs => ⟨hout, hr hs⟩
    · cases he
  | error evts ctl =>
    refine hkeep rfl (by rintro _ ⟨⟩) (hclose ?_)
    simp only [effect] at he
    split at he
    · exact close_enters he h
    · cases he
  | finish ctl =>
    rw [doClose_enters he] at h
    cases h

/-! ## One connection -/

theorem effect_factory (h : s.conn.factory = true) : (effect s a).1.factory = true := by
  cases a with
  | accept => rfl
  | enableReconnect => exact h
  | connect b r => exact doConnect_opened.factory
  | timer r =>
    rw [effect, reconnectTimer]
    split
    · exact h
    · exact doConnect_opened.factory.trans h
  | finish ctl =>
    simp only [effect, doClose]
    split
    · split <;> exact h
    · exact h
  | _ => exact (effect_sameSetup rfl (by rintro ⟨⟩) (by rintro _ ⟨⟩)).factory.trans h

/-- What `do_close` does to a connection that does not reconnect. -/
theorem doClose_of_closing (hs : c.connStatus = .connClosing) (hneed : c.needReconnect = false) :
    (doClose c ctl).1.connStatus = .connClosed ∧
      (0 < c.connSd → .closeSd .doClose c.connSd ∈ (doClose c ctl).2) ∧
      (c.factory = true → .postRemove ∈ (doClose c ctl).2) := by
  rw [doClose, if_pos hs, if_neg (by simp [hneed])]
  refine ⟨rfl, fun hpos => ?_, fun hfactory => ?_⟩
  · exact List.mem_append_right _ (List.mem_append_left _ (by simp [hpos]))
  · exact List.mem_append_right _ (List.mem_append_right _ (by simp [hfactory]))

theorem effect_postRemove (he : .postRemove ∈ (effect s a).2) :
    (effect s a).1.connStatus = .connClosed := by
  obtain ⟨ctl, rfl⟩ := kind_shut he rfl
  simp only [effect, doClose] at he ⊢
  split at he
  · split at he
    · rcases disconnect_kind _ he with h | h <;> cases h
    · next hs hneed => rw [if_pos hs, if_neg hneed]
  · cases he

/-- What the functions keep of a connection that its factory has created. -/
structure Handler.Settled (h : Handler) : Prop where
  factory : h.conn.factory = true
  unborn : h.conn.tcpWorker = false → h.conn.connSd = -1 ∧ h.conn.needReconnect = false ∧
    h.conn.connStatus ≠ .connClosed
  timer : h.conn.needReconnect = false → h.timer = false

/-- The connection may be registered for `sd`: it is not in `CONN_CLOSED`, and if it does not
reconnect then `do_close` will close `sd`. -/
structure Handler.Registrable (h : Handler) (sd : Int) : Prop where
  connStatus : h.conn.connStatus ≠ .connClosed
  connSd : h.conn.needReconnect = false → 0 < sd ∧ sd = h.conn.connSd

/-- What a step of a connection can do to its registrations and its owners. -/
structure Handler.Moves (h h' : Handler) (evs : List Event) : Prop where
  connId : h'.connId = h.connId
  factory : h'.factory = h.factory
  tcpWorker : h'.tcpWorker = h.tcpWorker
  settled : h'.Settled
  served : h.conn.tcpWorker = true → h'.conn.tcpWorker = true
  closed : h.conn.connStatus = .connClosed → h'.conn.connStatus = .connClosed
  closes : h'.conn.connStatus = .connClosed →
    h.conn.connStatus = .connClosed ∨ .postRemove ∈ evs
  posts : .postRemove ∈ evs → h'.conn.connStatus = .connClosed
  enters : ∀ e ∈ evs, ∀ sd, e.enters = some sd → h'.Registrable sd
  keeps : ∀ sd, h.Registrable sd → h'.Registrable sd ∨ ∃ site, .closeSd site sd ∈ evs

variable {h : Handler} {pc : WorkerPc}

theorem Handler.Settled.after (hs : h.Settled) (ha : Enabled (h.sys pc) a)
    (hf : ∀ ctl, a = .finish ctl → h.conn.tcpWorker = true) :
    (h.after (next (h.sys pc) a)).Settled := by
  refine ⟨effect_factory hs.factory, fun hw => ?_, fun hneed => ?_⟩
  · have hw' : h.conn.tcpWorker = false := effect_tcpWorker hw
    obtain ⟨hsd, hneed, hclosed⟩ := hs.unborn hw'
    have hfinish : ∀ ctl, a ≠ .finish ctl := by
      intro ctl heq
      cases hw'.symm.trans (hf ctl heq)
    have hsame : SameSetup (h.sys pc).conn (effect (h.sys pc) a).1 := by
      cases a with
      | accept => cases hw
      | connect b r => cases doConnect_opened.tcpWorker.symm.trans hw
      | enableReconnect => cases hw'.symm.trans ha
      | timer r => cases (hs.timer hneed).symm.trans ha.1
      | finish ctl => exact absurd rfl (hfinish ctl)
      | _ => exact effect_sameSetup rfl (by rintro ⟨⟩) hfinish
    refine ⟨hsame.connSd.trans hsd, hsame.needReconnect.trans hneed, fun hs' => ?_⟩
    rcases effect_closed hs' with h | ⟨-, -, ctl, heq⟩
    · exact hclosed h
    · exact hfinish ctl heq
  · have hneed' : h.conn.needReconnect = false :=
      effect_needReconnect ha (fun hw => (hs.unborn hw).2.1) hneed
    cases a with
    | enableReconnect => cases hneed
    | _ => exact hs.timer hneed'

theorem Handler.Registrable.after (hr : h.Registrable sd) (hs : h.Settled)
    (ha : Enabled (h.sys pc) a) : (h.after (next (h.sys pc) a)).Registrable sd ∨
      ∃ site, .closeSd site sd ∈ (effect (h.sys pc) a).2 := by
  by_cases hclosed : (effect (h.sys pc) a).1.connStatus = .connClosed
  · rcases effect_closed hclosed with h' | ⟨hclosing, hneed, ctl, rfl⟩
    · exact absurd h' hr.connStatus
    · obtain ⟨hpos, rfl⟩ := hr.connSd hneed
      exact .inr ⟨.doClose, (doClose_of_closing hclosing hneed).2.1 hpos⟩
  · refine .inl ⟨hclosed, fun hneed => ?_⟩
    have hneed' : h.conn.needReconnect = false :=
      effect_needReconnect ha (fun hw => (hs.unborn hw).2.1) hneed
    obtain ⟨hpos, hsd⟩ := hr.connSd hneed'
    have hborn : h.conn.tcpWorker = true := by
      by_contra hw
      have hneg := (hs.unborn (by simpa using hw)).1
      omega
    refine ⟨hpos, hsd.trans ?_⟩
    show (h.sys pc).conn.connSd = (effect (h.sys pc) a).1.connSd
    cases a with
    | accept | connect => cases hborn.symm.trans ha.1
    | timer r => cases (hs.timer hneed').symm.trans ha.1
    | finish ctl =>
      by_cases hclosing : h.conn.connStatus = .connClosing
      · exact absurd (doClose_of_closing hclosing hneed').1 hclosed
      · have hsame : doClose h.conn ctl = (h.conn, []) := if_neg hclosing
        simp only [effect, Handler.sys_conn, hsame]
    | _ => exact (effect_connSd rfl (by rintro _ ⟨⟩)).1.symm

/-- **The inversion of a step of a connection.** -/
theorem Handler.moves (hs : h.Settled) (ha : Enabled (h.sys pc) a)
    (hf : ∀ ctl, a = .finish ctl → h.conn.tcpWorker = true)
    (hc : h.conn.connStatus = .connClosed → ¬ a.Revives h.conn) :
    h.Moves (h.after (next (h.sys pc) a)) (effect (h.sys pc) a).2 where
  connId := rfl
  factory := rfl
  tcpWorker := rfl
  settled := hs.after ha hf
  served hw := by
    by_contra hw'
    rw [Handler.after_conn, next_conn, Bool.not_eq_true] at hw'
    cases hw.symm.trans (effect_tcpWorker hw')
  closed := effect_of_closed (s := h.sys pc)
  closes h' := by
    refine (effect_closed h').imp_right ?_
    rintro ⟨hclosing, hneed, ctl, rfl⟩
    exact (doClose_of_closing hclosing hneed).2.2 hs.factory
  posts := effect_postRemove
  enters e he sd hsd := by
    obtain ⟨hclosed, hpos, heq⟩ := effect_enters ha he hsd
    refine ⟨fun h' => ?_, fun _ => ⟨hpos, heq⟩⟩
    rcases effect_closed h' with h' | ⟨-, -, ctl, rfl⟩
    · rcases hclosed h' with hw | hr
      · exact (hs.unborn hw).2.2 h'
      · exact hc h' hr
    · cases (doClose_enters he).symm.trans hsd
  keeps sd hr := hr.after hs ha

end SNet.Tcp
