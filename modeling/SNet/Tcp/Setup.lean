import SNet.Tcp.Effects

/-!
# Descriptor, configuration and status

What each function does to the fields that are not buffers. A step opens a socket (`opens`), or is
the last test of `process_event`, or keeps the descriptor and what was configured
(`effect_sameSetup`); the status changes in four ways only (`effect_connStatus`). Before the
connection has a worker nothing happens to it (`exec_unborn`).
-/

namespace SNet.Tcp

variable {c : TcpConnection} {ctl : Bool} {sd sd' : Int} {hp : PackageHandler}

/-- The descriptor and what was configured are as they were. -/
structure SameSetup (c c' : TcpConnection) : Prop where
  connSd : c'.connSd = c.connSd
  needReconnect : c'.needReconnect = c.needReconnect
  tcpWorker : c'.tcpWorker = c.tcpWorker
  factory : c'.factory = c.factory

theorem SameSetup.refl : SameSetup c c := ⟨rfl, rfl, rfl, rfl⟩

/-- `c` after `::recv` has stored `bytes`. -/
def TcpConnection.receive (c : TcpConnection) (bytes : List UInt8) : TcpConnection :=
  { c with readBuffer := Memory.write c.readBuffer c.readBufferPos bytes }

@[simp] theorem TcpConnection.receive_readBufferPos {bytes : List UInt8} :
    (c.receive bytes).readBufferPos = c.readBufferPos := rfl

theorem close_sameSetup : SameSetup c (close c ctl).1 := by
  unfold close notifySend
  split
  · dsimp only
    split <;> exact ⟨rfl, rfl, rfl, rfl⟩
  · exact .refl

/-- `close()` takes effect in `CONN_IDLE` and `CONN_OPEN`. -/
theorem close_status : (close c ctl).1.connStatus =
    if c.connStatus.toNat < ConnStatus.connClosing.toNat then .connClosing else c.connStatus := by
  unfold close notifySend
  split
  · dsimp only
    split <;> rfl
  · rfl

theorem onReady_sameSetup : SameSetup c (onReady c).1 := by
  unfold onReady
  split <;> exact ⟨rfl, rfl, rfl, rfl⟩

theorem doSend_sameSetup {r : SendAnswer} : SameSetup c (doSend c r ctl).1 := by
  unfold doSend
  split
  · exact ⟨rfl, rfl, rfl, rfl⟩
  cases r with
  | again => exact ⟨rfl, rfl, rfl, rfl⟩
  | failed => exact close_sameSetup
  | count rc => dsimp only; split <;> exact ⟨rfl, rfl, rfl, rfl⟩

theorem processData_sameSetup {n : Nat} : SameSetup c (processData hp c n ctl).1 := by
  unfold processData
  dsimp only
  split
  · have h : SameSetup { c with readBufferPos := c.readBufferPos + n }
        (close { c with readBufferPos := c.readBufferPos + n } ctl).1 := close_sameSetup
    exact ⟨h.1, h.2, h.3, h.4⟩
  · exact ⟨rfl, rfl, rfl, rfl⟩

theorem doRead_sameSetup {r : RecvAnswer} : SameSetup c (doRead hp c r ctl).1 := by
  unfold doRead
  split
  · split
    · exact .refl
    · exact close_sameSetup
    · exact close_sameSetup
    · next bytes _ =>
      have h : SameSetup (c.receive bytes) (processData hp (c.receive bytes) bytes.length ctl).1 :=
        processData_sameSetup
      exact ⟨h.1, h.2, h.3, h.4⟩
  · exact processData_sameSetup

/-! ## Status -/

/-- What `do_send` and `do_read` may do to the status. -/
theorem doSend_connStatus {r : SendAnswer} : (doSend c r ctl).1.connStatus = c.connStatus ∨
    (doSend c r ctl).1.connStatus = (close c ctl).1.connStatus := by
  unfold doSend
  split
  · exact .inl rfl
  cases r with
  | again => exact .inl rfl
  | failed => exact .inr rfl
  | count rc => dsimp only; split <;> exact .inl rfl

theorem processData_connStatus {n : Nat} : (processData hp c n ctl).1.connStatus = c.connStatus ∨
    (processData hp c n ctl).1.connStatus = (close c ctl).1.connStatus := by
  unfold processData
  dsimp only
  split
  · exact .inr (by rw [close_status, close_status])
  · exact .inl rfl

theorem doRead_connStatus {r : RecvAnswer} : (doRead hp c r ctl).1.connStatus = c.connStatus ∨
    (doRead hp c r ctl).1.connStatus = (close c ctl).1.connStatus := by
  unfold doRead
  split
  · split
    · exact .inl rfl
    · exact .inr rfl
    · exact .inr rfl
    · next bytes _ =>
      have h := @processData_connStatus (c.receive bytes) ctl hp bytes.length
      rw [close_status] at h ⊢
      exact h
  · exact processData_connStatus

/-! ## Steps -/

variable {s : Sys} {a : Action}

/-- The number that a step stores in `conn_sd` for a new descriptor. -/
def opens (s : Sys) : Action → Option Int
  | .accept fd _ => some fd
  | .connect _ r => some r.sd
  | .timer r => if s.conn.isOpen then none else some r.sd
  | _ => none

theorem doConnect_spec (c : TcpConnection) (r : ConnectAnswer) : ∃ evts evs,
    doConnect c r = ({ c with connSd := r.sd, epollEvents := evts }, .socket r.sd :: evs) ∧
      ∀ e ∈ evs, e.SetsUp r.sd := by
  unfold doConnect
  dsimp only
  split
  · exact ⟨c.epollEvents, [], rfl, by simp⟩
  split
  · exact ⟨c.epollEvents, _, rfl, by simp [Event.SetsUp, Event.kind]⟩
  · exact ⟨_, _, rfl, List.forall_mem_cons.2 ⟨.inl rfl, addEvent_setsUp⟩⟩

/-- `c'` is `c` with the number of a new descriptor and another `epoll_events`. -/
structure Opened (sd : Int) (c c' : TcpConnection) : Prop where
  connSd : c'.connSd = sd
  connStatus : c'.connStatus = c.connStatus
  needReconnect : c'.needReconnect = c.needReconnect
  tcpWorker : c'.tcpWorker = c.tcpWorker
  factory : c'.factory = c.factory
  streams : SameStreams c c'

theorem doConnect_opened {r : ConnectAnswer} : Opened r.sd c (doConnect c r).1 := by
  obtain ⟨evts, evs, heq, -⟩ := doConnect_spec c r
  rw [heq]
  exact ⟨rfl, rfl, rfl, rfl, rfl, ⟨rfl, rfl, rfl⟩⟩

/-- A step that opens a descriptor reports it, stores it, and keeps buffers and status. -/
theorem effect_of_opens (ha : Enabled s a) (h : opens s a = some sd) :
    (∃ evs, (effect s a).2 = .socket sd :: evs ∧ ∀ e ∈ evs, e.SetsUp sd) ∧
    (effect s a).1.connSd = sd ∧ SameStreams s.conn (effect s a).1 ∧
    (effect s a).1.connStatus = s.conn.connStatus := by
  cases a with
  | accept fd ctl =>
    cases h
    exact ⟨⟨_, rfl, addEvent_setsUp⟩, if_pos ha.2, ⟨rfl, rfl, rfl⟩, rfl⟩
  | connect b r =>
    cases h
    let c := init { s.conn with factory := true, needReconnect := b, tcpWorker := true } 0
    obtain ⟨evts, evs, heq, hkind⟩ := doConnect_spec c r
    have hopened : Opened r.sd c (doConnect c r).1 := doConnect_opened
    exact ⟨⟨evs, congrArg Prod.snd heq, hkind⟩, hopened.connSd, ⟨hopened.streams.1,
      hopened.streams.2, hopened.streams.3⟩, hopened.connStatus⟩
  | timer r =>
    simp only [opens] at h
    split at h
    · cases h
    · next hopen =>
      cases h
      obtain ⟨evts, evs, heq, hkind⟩ := doConnect_spec s.conn r
      rw [effect, reconnectTimer, if_neg hopen, heq]
      exact ⟨⟨evs, rfl, hkind⟩, rfl, ⟨rfl, rfl, rfl⟩, rfl⟩
  | _ => cases h

theorem kind_of_opens (h : opens s a = none) : ∀ e ∈ (effect s a).2, e.kind ≠ .opening := by
  intro e he hk
  cases a with
  | accept | connect => cases h
  | timer r =>
    simp only [opens] at h
    split at h
    · next hopen =>
      rw [effect, reconnectTimer, if_pos hopen] at he
      cases he
    · cases h
  | _ =>
    have := effect_kind he
    simp [hk, Action.kinds] at this

/-- A step that opens no descriptor, other than the last test of `process_event` and
`enable_reconnect`. -/
theorem effect_sameSetup (h : opens s a = none) (hr : a ≠ .enableReconnect)
    (hf : ∀ ctl, a ≠ .finish ctl) : SameSetup s.conn (effect s a).1 := by
  cases a with
  | accept | connect => cases h
  | enableReconnect => exact absurd rfl hr
  | finish ctl => exact absurd rfl (hf ctl)
  | timer r =>
    simp only [opens] at h
    split at h
    · next hopen => rw [effect, reconnectTimer, if_pos hopen]; exact .refl
    · cases h
  | msend | push | epollWait | processEvent => exact ⟨rfl, rfl, rfl, rfl⟩
  | send t r ctl => exact doSend_sameSetup
  | close ctl => exact close_sameSetup
  | onReady evts => exact onReady_sameSetup
  | read evts hp r ctl =>
    simp only [effect]
    split
    · exact doRead_sameSetup
    · exact .refl
  | write evts r ctl =>
    simp only [effect]
    split
    · exact doSend_sameSetup
    · exact .refl
  | error evts ctl =>
    simp only [effect]
    split
    · exact close_sameSetup
    · exact .refl

/-- Between the opening of a descriptor and the last test of `process_event` the descriptor stays,
and so does what was configured but for `need_reconnect`. -/
theorem effect_connSd (h : opens s a = none) (hf : ∀ ctl, a ≠ .finish ctl) :
    (effect s a).1.connSd = s.conn.connSd ∧ (effect s a).1.tcpWorker = s.conn.tcpWorker := by
  by_cases hr : a = .enableReconnect
  · subst hr
    exact ⟨rfl, rfl⟩
  · have hsame := effect_sameSetup h hr hf
    exact ⟨hsame.connSd, hsame.tcpWorker⟩

/-- The status changes in `close()`, in `on_ready` and in `do_close` only. -/
theorem effect_connStatus (s : Sys) (a : Action) :
    (effect s a).1.connStatus = s.conn.connStatus ∨
    (s.conn.connStatus.toNat < ConnStatus.connClosing.toNat ∧
      (effect s a).1.connStatus = .connClosing) ∨
    (s.conn.connStatus = .connIdle ∧ (effect s a).1.connStatus = .connOpen ∧
      ∃ evts, a = .onReady evts) ∨
    (s.conn.connStatus = .connClosing ∧ (effect s a).1.connStatus =
      (if s.conn.needReconnect then .connIdle else .connClosed) ∧ ∃ ctl, a = .finish ctl) := by
  have closed : ∀ {st : ConnStatus} {c : TcpConnection} {ctl : Bool},
      st = c.connStatus ∨ st = (close c ctl).1.connStatus →
      st = c.connStatus ∨
        (c.connStatus.toNat < ConnStatus.connClosing.toNat ∧ st = .connClosing) := by
    intro st c ctl h
    rw [close_status] at h
    split at h
    · next hlt => exact h.imp_right fun h => ⟨hlt, h⟩
    · exact .inl (h.elim id id)
  have settle : ∀ {p q r t : Prop}, p ∨ q → p ∨ q ∨ r ∨ t := fun h => h.imp_right .inl
  cases a with
  | accept | enableReconnect | msend | push | epollWait | processEvent => exact .inl rfl
  | connect b r => exact .inl doConnect_opened.connStatus
  | timer r =>
    rw [effect, reconnectTimer]
    split
    · exact .inl rfl
    · exact .inl doConnect_opened.connStatus
  | send t r ctl => exact settle (closed doSend_connStatus)
  | close ctl => exact settle (closed (.inr rfl))
  | onReady evts =>
    simp only [effect, onReady]
    split
    · next hidle => exact .inr (.inr (.inl ⟨hidle, rfl, evts, rfl⟩))
    · exact .inl rfl
  | read evts hp r ctl =>
    simp only [effect]
    split
    · exact settle (closed doRead_connStatus)
    · exact .inl rfl
  | write evts r ctl =>
    simp only [effect]
    split
    · exact settle (closed doSend_connStatus)
    · exact .inl rfl
  | error evts ctl =>
    simp only [effect]
    split
    · exact settle (closed (.inr rfl))
    · exact .inl rfl
  | finish ctl =>
    simp only [effect, doClose]
    split
    · next hs => split <;> exact .inr (.inr (.inr ⟨hs, rfl, ctl, rfl⟩))
    · exact .inl rfl

/-- Only `do_close` leads to `CONN_CLOSED`. -/
theorem effect_closed (h : (effect s a).1.connStatus = .connClosed) :
    s.conn.connStatus = .connClosed ∨ s.conn.connStatus = .connClosing ∧
      s.conn.needReconnect = false ∧ ∃ ctl, a = .finish ctl := by
  rcases effect_connStatus s a with hsame | ⟨-, hsame⟩ | ⟨-, hsame, -⟩ | ⟨hclosing, hsame, hf⟩
  · exact .inl (hsame.symm.trans h)
  · cases hsame.symm.trans h
  · cases hsame.symm.trans h
  · refine .inr ⟨hclosing, ?_, hf⟩
    by_contra hneed
    rw [if_pos (by simpa using hneed)] at hsame
    cases hsame.symm.trans h

theorem effect_of_closed (h : s.conn.connStatus = .connClosed) :
    (effect s a).1.connStatus = .connClosed := by
  rcases effect_connStatus s a with hsame | ⟨hlt, -⟩ | ⟨hidle, -⟩ | ⟨hclosing, -⟩
  · exact hsame.trans h
  · simp [h, ConnStatus.toNat] at hlt
  · cases hidle.symm.trans h
  · cases hclosing.symm.trans h

theorem effect_evtConnect (he : .handleEvent .evtConnect ∈ (effect s a).2) :
    s.conn.connStatus = .connIdle ∧ ∃ evts, a = .onReady evts := by
  have hk := effect_kind he
  cases a with
  | onReady evts =>
    simp only [effect, onReady] at he
    split at he
    · next hidle => exact ⟨hidle, evts, rfl⟩
    · cases he
  | finish ctl =>
    have hdis : ∀ c ctl, .handleEvent .evtConnect ∉ disconnect c ctl := by
      intro c ctl he
      rw [disconnect, List.mem_append, List.mem_ite_nil_right, List.mem_singleton] at he
      obtain ⟨-, he⟩ | he := he
      · cases delEvent_kind _ he
      · cases he
    simp only [effect, doClose] at he
    split at he
    · split at he
      · exact absurd he (hdis _ _)
      · obtain he | he | he := (List.mem_append.1 he).imp_right List.mem_append.1
        · exact absurd he (hdis _ _)
        all_goals
          rw [List.mem_ite_nil_right, List.mem_singleton] at he
          cases he.2
    · cases he
  | _ => simp [Event.kind, Action.kinds] at hk

/-! ## Registered descriptors -/

variable {e : Event} {tr evs : List Event} {reg : List Int}

theorem registered_append :
    registered (tr ++ evs) = evs.foldl Event.register (registered tr) := List.foldl_append

theorem register_mem (h : e.kind ≠ .opening) (hsd : sd ∈ e.register reg) : sd ∈ reg := by
  cases e with
  | socket sd' => exact absurd rfl h
  | epollCtl op sd' evts ok =>
    cases op with
    | add => exact absurd rfl h
    | mod => exact hsd
    | del =>
      cases ok with
      | true => exact (List.mem_filter.1 hsd).1
      | false => exact hsd
  | closeSd site sd' => exact (List.mem_filter.1 hsd).1
  | _ => exact hsd

theorem foldl_register_mem (h : ∀ e ∈ evs, e.kind ≠ .opening)
    (hsd : sd ∈ evs.foldl Event.register reg) : sd ∈ reg := by
  induction evs generalizing reg with
  | nil => exact hsd
  | cons e evs ih =>
    rcases List.forall_mem_cons.1 h with ⟨he, hevs⟩
    exact register_mem he (ih hevs hsd)

theorem foldl_register_setsUp (h : ∀ e ∈ evs, e.SetsUp sd)
    (hsd : sd' ∈ evs.foldl Event.register reg) : sd' ∈ reg ∨ 0 < sd ∧ sd' = sd := by
  induction evs generalizing reg with
  | nil => exact .inl hsd
  | cons e evs ih =>
    rcases List.forall_mem_cons.1 h with ⟨he, hevs⟩
    rcases ih hevs hsd with hmem | hnew
    · rcases he with hkind | ⟨hpos, evts, ok, rfl⟩
      · exact .inl (register_mem (by simp [hkind]) hmem)
      · cases ok with
        | true => exact (List.mem_cons.1 hmem).symm.imp_right fun h => ⟨hpos, h⟩
        | false => exact .inl hmem
    · exact .inr hnew

/-! ## Before the worker is set -/

/-- A connection that nobody has accepted or connected: `close()` may have been called. -/
structure Unborn (s : Sys) : Prop where
  connSd : s.conn.connSd = -1
  needReconnect : s.conn.needReconnect = false
  connStatus : s.conn.connStatus ≠ .connClosed
  readBufferPos : s.conn.readBufferPos = 0
  sendBuffer : s.conn.sendBuffer = []
  trace : ∀ e ∈ s.trace, e = .closing
  threads : ∀ t, s.threads t = .idle
  worker : s.worker = .waiting
  batch : s.batch = []
  timer : s.timer = false

theorem Unborn.registered (h : Unborn s) : registered s.trace = [] := by
  have key : ∀ (tr : List Event) (reg : List Int), (∀ e ∈ tr, e = .closing) →
      tr.foldl Event.register reg = reg := by
    intro tr
    induction tr with
    | nil => exact fun _ _ => rfl
    | cons e tr ih =>
      intro reg he
      obtain ⟨hclosing, htr⟩ := List.forall_mem_cons.1 he
      rw [List.foldl_cons, hclosing]
      exact ih reg htr
  exact key s.trace [] h.trace

/-- Once there is a worker it stays. -/
theorem effect_tcpWorker (hw : (effect s a).1.tcpWorker = false) : s.conn.tcpWorker = false := by
  cases ho : opens s a with
  | none =>
    by_cases hf : ∃ ctl, a = .finish ctl
    · obtain ⟨ctl, rfl⟩ := hf
      simp only [effect, doClose] at hw
      split at hw
      · split at hw <;> exact hw
      · exact hw
    · rw [(effect_connSd ho fun ctl hctl => hf ⟨ctl, hctl⟩).2] at hw
      exact hw
  | some sd =>
    cases a with
    | accept fd ctl => cases hw
    | connect b r => cases doConnect_opened.tcpWorker.symm.trans hw
    | timer r =>
      rw [effect, reconnectTimer] at hw
      split at hw
      · exact hw
      · exact doConnect_opened.tcpWorker.symm.trans hw
    | _ => cases ho

theorem unborn_next (ha : Enabled s a) (hw : (next s a).conn.tcpWorker = false) (hs : Unborn s) :
    Unborn (next s a) := by
  have hws := effect_tcpWorker hw
  rw [next_conn] at hw
  cases a with
  | accept fd ctl => cases hw
  | connect b r => cases doConnect_opened.tcpWorker.symm.trans hw
  | enableReconnect => cases ha.symm.trans hw
  | timer r => cases hs.timer.symm.trans ha.1
  | msend t frags =>
    have hopen : s.conn.isOpen = false := by simp [TcpConnection.isOpen, hs.connSd]
    refine { hs with trace := by simpa [effect] using hs.trace, threads := fun u => ?_ }
    simp only [next, control, Sys.setThread, hopen]
    split
    · rfl
    · exact hs.threads u
  | push t frags => cases (hs.threads t).symm.trans ha
  | send t r ctl => cases (hs.threads t).symm.trans ha.1
  | close ctl =>
    have hstreams : SameStreams s.conn (close s.conn ctl).1 := close_sameStreams
    refine
      { hs with connSd := ?_, needReconnect := ?_, connStatus := ?_, readBufferPos := ?_,
                sendBuffer := ?_, trace := ?_ }
    · exact close_sameSetup.connSd.trans hs.connSd
    · exact close_sameSetup.needReconnect.trans hs.needReconnect
    · rw [next_conn, effect, close_status]
      split
      · rintro ⟨⟩
      · exact hs.connStatus
    · exact hstreams.readBufferPos.trans hs.readBufferPos
    · exact hstreams.sendBuffer.trans hs.sendBuffer
    · intro e he
      refine (List.mem_append.1 he).elim (hs.trace e) fun he => ?_
      simp only [effect, close, notifySend, hws] at he
      split at he
      · exact List.mem_singleton.1 he
      · cases he
  | epollWait evs =>
    have hevs : evs = [] := by
      have hreg := ha.2.2.2
      rw [hs.registered] at hreg
      refine List.eq_nil_iff_forall_not_mem.2 fun e he => ?_
      cases hreg e he
    subst hevs
    exact { hs with trace := by simpa [effect] using hs.trace, batch := rfl }
  | processEvent evts =>
    have hhead := ha.2
    rw [hs.batch] at hhead
    cases hhead
  | onReady | error | finish => cases hs.worker.symm.trans ha
  | read | write => cases hs.worker.symm.trans ha.1

theorem unborn_start {buf : Nat → UInt8} : Unborn (Sys.start buf) :=
  ⟨rfl, rfl, by rintro ⟨⟩, rfl, rfl, List.forall_mem_nil _, fun _ => rfl, rfl, rfl, rfl⟩

theorem exec_unborn {buf : Nat → UInt8} {as : List Action} (h : machine.Runs (Sys.start buf) as)
    (hw : (machine.exec (Sys.start buf) as).conn.tcpWorker = false) :
    Unborn (machine.exec (Sys.start buf) as) := by
  revert hw
  refine h.invariant (I := fun s => s.conn.tcpWorker = false → Unborn s) ?_ fun _ => unborn_start
  exact fun s a ha ih hw => unborn_next ha hw (ih (effect_tcpWorker hw))

end SNet.Tcp
