import SNet.Library.Trace
import SNet.Tcp.ReceiveStream
import SNet.Tcp.SendStream

/-!
# Reconnecting

`do_close` and `do_connect` change the status and the descriptor, and neither touches `read_buffer`,
`read_buffer_pos` or `send_buffer`. So what was half received and what was half sent on one socket
goes on over the next one (`reconnect_carries_over`), unless both buffers are empty when the timer
connects and no `msend` that saw the old socket open appends to the buffer of the new one
(`reconnectsClean_of_steps`).

The life of a socket is what the trace holds behind the `socket` event (`Life`); its session begins
with `EVT_CONNECT` (`Session`).
-/

namespace SNet.Tcp

variable {s : Sys} {a : Action} {as : List Action} {buf : Nat → UInt8} {sd : Int}
  {w x y z evs : List Event}

/-! ## The property and its condition -/

/-- The bytes that an event carries go over `sd`. -/
def Event.OnSd (sd : Int) : Event → Prop
  | .send sd' bytes | .recv sd' bytes => bytes = [] ∨ sd' = sd
  | _ => True

/-- What follows the first `EVT_CONNECT` of a socket concerns that socket only: all bytes go over
it, the bytes sent are those appended since, and the packages cut the bytes received since. -/
def ReconnectsClean (s : Sys) : Prop :=
  ∀ x sd y z, s.trace = x ++ .socket sd :: (y ++ .handleEvent .evtConnect :: z) →
    (∀ sd', .socket sd' ∉ y ++ z) → .handleEvent .evtConnect ∉ y →
    (∀ e ∈ y ++ z, e.OnSd sd) ∧ accepted y = [] ∧ accepted z <+: appended z ∧
    (.handleEvent .evtDisconnect ∉ z → (packages z).flatten <+: received z ∧
      (s.conn.connStatus = .connOpen → (packages z).flatten ++ s.conn.unread = received z))

def Event.establish (b : Bool) : Event → Bool
  | .socket _ => false
  | .handleEvent .evtConnect => true
  | _ => b

/-- `EVT_CONNECT` was raised for the latest socket. -/
def established (tr : List Event) : Bool := tr.foldl Event.establish false

/-- The timer connects and `on_ready` opens with nothing buffered, and the critical section of an
`msend` comes after the `EVT_CONNECT` of the latest socket. -/
def SwitchesClean (s : Sys) : Action → Prop
  | .timer _ => s.conn.isOpen = false → s.conn.readBufferPos = 0 ∧ s.conn.sendBuffer = []
  | .onReady _ => s.conn.connStatus = .connIdle → s.conn.readBufferPos = 0
  | .push .. => established s.trace = true
  | _ => True

instance SwitchesClean.decidable (s : Sys) : ∀ a, Decidable (SwitchesClean s a)
  | .timer _ => inferInstanceAs (Decidable (_ → _))
  | .onReady _ => inferInstanceAs (Decidable (_ → _))
  | .push .. => inferInstanceAs (Decidable (_ = _))
  | .accept .. | .connect .. | .enableReconnect | .msend .. | .send .. | .close _ | .epollWait _
  | .processEvent _ | .read .. | .write .. | .error .. | .finish _ =>
    inferInstanceAs (Decidable True)

theorem evtConnect_of_established {tr : List Event} {b : Bool}
    (h : tr.foldl Event.establish b = true) : b = true ∨ .handleEvent .evtConnect ∈ tr := by
  induction tr generalizing b with
  | nil => exact .inl h
  | cons e tr ih =>
    obtain h | h := ih h
    · cases e with
      | handleEvent evt =>
        cases evt with
        | evtConnect => exact .inr (.head _)
        | evtDisconnect => exact .inl h
      | socket sd => cases h
      | _ => exact .inl h
    · exact .inr (.tail _ h)

/-- With no socket behind it, an established life holds its `EVT_CONNECT`. -/
theorem evtConnect_mem (h : established (x ++ .socket sd :: w) = true) :
    .handleEvent .evtConnect ∈ w := by
  rw [established, List.foldl_append, List.foldl_cons] at h
  exact (evtConnect_of_established h).resolve_left (by simp [Event.establish])

/-! ## Sessions -/

/-- The worker has passed `do_read` in `process_event`. -/
def WorkerPc.PastReading : WorkerPc → Prop
  | .sending _ | .erring _ | .checking => True
  | _ => False

/-- A session in progress whose events so far are `z`. It is a flow through `read_buffer`, until
`process_data` rejects a length and the worker goes on to `do_close`. -/
structure Session (z : List Event) (s : Sys) : Prop where
  status : s.conn.connStatus = .connOpen ∨ s.conn.connStatus = .connClosing
  stream : FifoFlow [] (received z) (packages z).flatten s.conn.unread ∨
    s.conn.connStatus = .connClosing ∧ s.worker.PastReading ∧
      (packages z).flatten <+: received z

theorem evtDisconnect_mem_doClose {c : TcpConnection} {ctl : Bool}
    (h : c.connStatus = .connClosing) :
    .handleEvent .evtDisconnect ∈ (doClose c ctl).2 := by
  have hdis : .handleEvent .evtDisconnect ∈ disconnect c ctl :=
    List.mem_append_right _ List.mem_cons_self
  rw [doClose, if_pos h]
  split
  · exact hdis
  · exact List.mem_append_left _ hdis

theorem Session.status_next (h : Session z s)
    (hd : .handleEvent .evtDisconnect ∉ (effect s a).2) :
    (effect s a).1.connStatus = s.conn.connStatus ∨
      (effect s a).1.connStatus = .connClosing := by
  obtain hs | ⟨-, hs⟩ | ⟨hs, -, -⟩ | ⟨hs, -, ctl, rfl⟩ := effect_connStatus s a
  · exact .inl hs
  · exact .inr hs
  · cases h.status <;> simp_all
  · exact absurd (evtDisconnect_mem_doClose hs) hd

/-- Once the worker is past `do_read`, it stays so up to the test for `do_close`. -/
theorem pastReading_next (ha : Enabled s a) (hw : s.worker.PastReading)
    (hs : s.conn.connStatus = .connClosing)
    (hd : .handleEvent .evtDisconnect ∉ (effect s a).2) : (next s a).worker.PastReading := by
  cases a with
  | finish ctl => exact absurd (evtDisconnect_mem_doClose hs) hd
  | processEvent evts => rw [ha.1] at hw; exact hw.elim
  | onReady evts => rw [show s.worker = _ from ha] at hw; exact hw
  | read evts hp r ctl => rw [ha.1] at hw; exact hw.elim
  | write evts r ctl =>
    simp only [next, control]
    split <;> trivial
  | error | epollWait => trivial
  | _ => exact hw

theorem Session.next (ha : Enabled s a) (hd : .handleEvent .evtDisconnect ∉ (effect s a).2)
    (h : Session z s) : Session (z ++ (effect s a).2) (next s a) := by
  have hstatus := h.status_next hd
  have hclosing : s.conn.connStatus = .connClosing → (effect s a).1.connStatus = .connClosing :=
    fun hs => hstatus.elim (·.trans hs) id
  refine ⟨h.status.elim (fun hs => hstatus.imp_left (·.trans hs)) fun hs => .inr (hclosing hs), ?_⟩
  rw [received_append, packages_append, List.flatten_append]
  obtain hflow | ⟨hs, hw, hpre⟩ := h.stream
  · obtain hstep | ⟨hpre, ⟨evts, hw⟩, ctl, hs⟩ := effect_receiveFlow s a
    · exact .inl (hflow.trans hstep)
    · refine .inr ⟨?_, ?_, ?_⟩
      · rw [next_conn, hs, close_status]
        obtain hs | hs := h.status <;> rw [hs] <;> rfl
      · rw [show (Tcp.next s a).worker = _ from hw]
        trivial
      · rw [hflow.nil_left, List.append_assoc]
        exact (List.prefix_append_right_inj _).2 hpre
  · have hread : ∀ evts hp r ctl, a ≠ .read evts hp r ctl := by
      rintro evts hp r ctl rfl
      rw [ha.1] at hw
      exact hw
    obtain ⟨hreceived, hpackages, -⟩ := effect_quiet s hread
    rw [hreceived, hpackages, List.flatten_nil, List.append_nil, List.append_nil]
    exact .inr ⟨hclosing hs, pastReading_next ha hw hs hd, hpre⟩

/-! ## Lives -/

/-- The life of `sd`, of which `w` has happened: nothing is sent before its `EVT_CONNECT`, and from
there on `send_buffer` holds what is appended and not yet sent. -/
structure Life (sd : Int) (w : List Event) (s : Sys) : Prop where
  connSd : s.conn.connSd = sd ∨ s.conn.connSd ≤ 0
  onSd : ∀ e ∈ w, e.OnSd sd
  unconnected : .handleEvent .evtConnect ∉ w → accepted w = [] ∧ s.conn.sendBuffer = []
  sent : ∀ y z, w = y ++ .handleEvent .evtConnect :: z → .handleEvent .evtConnect ∉ y →
    accepted y = [] ∧ FifoFlow [] (appended z) (accepted z) s.conn.sendBuffer
  session : ∀ y z, w = y ++ .handleEvent .evtConnect :: z → .handleEvent .evtDisconnect ∉ z →
    Session z s

theorem Event.onSd_of_kind {e : Event} (hs : e.kind ≠ .send) (hr : e.kind ≠ .receive) :
    e.OnSd sd := by
  cases e with
  | send => exact absurd rfl hs
  | recv => exact absurd rfl hr
  | _ => trivial

theorem doSend_onSd {c : TcpConnection} {r : SendAnswer} {ctl : Bool} (hr : r.Possible c)
    (hsd : c.connSd = sd ∨ c.connSd ≤ 0) : ∀ e ∈ (doSend c r ctl).2, e.OnSd sd := by
  have hmod : ∀ evts, ∀ e ∈ modEvent c.connSd evts ctl, e.OnSd sd := by
    intro evts e he
    have := modEvent_kind e he
    exact Event.onSd_of_kind (by simp [this]) (by simp [this])
  unfold doSend
  split
  · exact hmod _
  cases r with
  | again => exact List.forall_mem_cons.2 ⟨.inl rfl, hmod _⟩
  | failed =>
    refine List.forall_mem_cons.2 ⟨.inl rfl, fun e he => ?_⟩
    have := close_kind e he
    exact Event.onSd_of_kind (by simp [this]) (by simp [this])
  | count rc =>
    have heq : c.connSd = sd := hsd.resolve_right (Int.not_le.2 hr.1)
    dsimp only
    split <;> exact List.forall_mem_singleton.2 (.inr heq)

theorem processData_onSd {hp : PackageHandler} {c : TcpConnection} {n : Nat} {ctl : Bool} :
    ∀ e ∈ (processData hp c n ctl).2.1, e.OnSd sd := by
  have hdata : ∀ ps : List (List UInt8), ∀ e ∈ ps.map Event.handleData, e.OnSd sd := by
    intro ps e he
    obtain ⟨p, -, rfl⟩ := List.mem_map.1 he
    trivial
  unfold processData
  dsimp only
  split
  · intro e he
    refine (List.mem_append.1 he).elim (hdata _ e) fun he => ?_
    have := close_kind e he
    exact Event.onSd_of_kind (by simp [this]) (by simp [this])
  · exact hdata _

theorem doRead_onSd {hp : PackageHandler} {c : TcpConnection} {r : RecvAnswer} {ctl : Bool}
    (hr : r.Possible c) (hsd : c.connSd = sd ∨ c.connSd ≤ 0) :
    ∀ e ∈ (doRead hp c r ctl).2.1, e.OnSd sd := by
  have hclose : ∀ e ∈ (close c ctl).2, e.OnSd sd := by
    intro e he
    have := close_kind e he
    exact Event.onSd_of_kind (by simp [this]) (by simp [this])
  unfold doRead
  split
  · split
    · exact List.forall_mem_singleton.2 (.inl rfl)
    · exact List.forall_mem_cons.2 ⟨.inl rfl, hclose⟩
    · exact List.forall_mem_cons.2 ⟨.inl rfl, hclose⟩
    · have heq : c.connSd = sd := hsd.resolve_right (Int.not_le.2 hr.1)
      exact List.forall_mem_cons.2 ⟨.inr heq, processData_onSd⟩
  · exact processData_onSd

theorem effect_onSd (ha : Enabled s a) (hsd : s.conn.connSd = sd ∨ s.conn.connSd ≤ 0) :
    ∀ e ∈ (effect s a).2, e.OnSd sd := by
  intro e he
  have hk := effect_kind he
  cases a with
  | send t r ctl => exact doSend_onSd ha.2 hsd e he
  | read evts hp r ctl =>
    simp only [effect] at he
    split at he
    · exact doRead_onSd ha.2 hsd e he
    · cases he
  | write evts r ctl =>
    simp only [effect] at he
    split at he
    · exact doSend_onSd ha.2 hsd e he
    · cases he
  | _ => refine Event.onSd_of_kind ?_ ?_ <;> intro h <;> simp [h, Action.kinds] at hk

/-- A step that opens a descriptor begins its life, if nothing is buffered. -/
theorem life_of_opens (ha : Enabled s a) (ho : opens s a = some sd)
    (hbuf : s.conn.sendBuffer = []) :
    ∃ evs, (effect s a).2 = .socket sd :: evs ∧ (∀ sd', .socket sd' ∉ evs) ∧
      Life sd evs (next s a) := by
  obtain ⟨⟨evs, hevs, hkind⟩, hsd, hstreams, -⟩ := effect_of_opens ha ho
  have hne : ∀ e ∈ evs, ∀ k, k ≠ .opening → k ≠ .kernel → e.kind ≠ k := by
    rintro e he k hopening hkernel rfl
    exact (hkind e he).kind.elim hopening hkernel
  have hconnect : ∀ evt, .handleEvent evt ∉ evs := fun evt he =>
    hne _ he .status (by decide) (by decide) rfl
  refine ⟨evs, hevs, fun sd' he => (hkind _ he).ne_socket rfl, ?_⟩
  refine ⟨.inl hsd, fun e he => ?_, fun _ => ⟨?_, hstreams.sendBuffer.trans hbuf⟩, ?_, ?_⟩
  · exact Event.onSd_of_kind (hne e he _ (by decide) (by decide)) (hne e he _ (by decide) (by decide))
  · exact accepted_eq_nil fun e he => hne e he _ (by decide) (by decide)
  all_goals
    rintro y z rfl
    exact absurd (List.mem_append_right y List.mem_cons_self) (hconnect _)

theorem effect_connSd_or (ho : opens s a = none) :
    (effect s a).1.connSd = s.conn.connSd ∨ (effect s a).1.connSd ≤ 0 := by
  by_cases hf : ∃ ctl, a = .finish ctl
  · obtain ⟨ctl, rfl⟩ := hf
    simp only [effect, doClose]
    split
    · split
      · exact .inl rfl
      · dsimp only
        split <;> simp
    · exact .inl rfl
  · exact .inl (effect_connSd ho fun ctl h => hf ⟨ctl, h⟩).1

theorem effect_split_evtConnect (h : (effect s a).2 = y ++ .handleEvent .evtConnect :: z) :
    y = [] ∧ z = [] ∧ s.conn.connStatus = .connIdle ∧ ∃ evts, a = .onReady evts := by
  obtain ⟨hidle, evts, rfl⟩ := effect_evtConnect (h ▸ List.mem_append_right y List.mem_cons_self)
  rw [effect, onReady, if_pos hidle] at h
  cases y with
  | nil => exact ⟨rfl, (List.cons.inj h).2.symm, hidle, evts, rfl⟩
  | cons e y => simp at h

/-- A life goes on with every step that opens no other descriptor. -/
theorem Life.next (ha : Enabled s a) (ho : opens s a = none) (hp : SwitchesClean s a)
    (hest : established s.trace = true → .handleEvent .evtConnect ∈ w) (h : Life sd w s) :
    Life sd (w ++ (effect s a).2) (next s a) := by
  have hflow := effect_sendFlow ha
  refine ⟨?_, ?_, fun hw => ?_, fun y z' hw hy => ?_, fun y z' hw hz => ?_⟩
  · exact (effect_connSd_or ho).elim (fun hsd => hsd ▸ h.connSd) .inr
  · intro e he
    exact (List.mem_append.1 he).elim (h.onSd e) (effect_onSd ha h.connSd e)
  · have hunc : .handleEvent .evtConnect ∉ w := fun he => hw (List.mem_append_left _ he)
    obtain ⟨hacc, hbuf⟩ := h.unconnected hunc
    have happ : appended (effect s a).2 = [] := by
      refine appended_eq_nil fun e he hk => ?_
      obtain ⟨t, frags, rfl⟩ := kind_append he hk
      exact hunc (hest hp)
    have := hflow
    rw [FifoFlow, hbuf, happ] at this
    obtain ⟨hacc', hbuf'⟩ := List.append_eq_nil_iff.1 this.symm
    exact ⟨by rw [accepted_append, hacc, hacc']; rfl, hbuf'⟩
  · obtain ⟨v, rfl, rfl⟩ | ⟨y', rfl, hevs⟩ := Trace.split_append hw
    · obtain ⟨hacc, hsent⟩ := h.sent y v rfl hy
      exact ⟨hacc, by simpa using hsent.trans hflow⟩
    · obtain ⟨rfl, rfl, hidle, evts, rfl⟩ := effect_split_evtConnect hevs
      rw [List.append_nil] at hy ⊢
      obtain ⟨hacc, hbuf⟩ := h.unconnected hy
      exact ⟨hacc, .still rfl rfl (onReady_sameStreams.sendBuffer.trans hbuf)⟩
  · obtain ⟨v, rfl, rfl⟩ | ⟨y', rfl, hevs⟩ := Trace.split_append hw
    · rw [List.mem_append, not_or] at hz
      exact (h.session y v rfl hz.1).next ha hz.2
    · obtain ⟨rfl, rfl, hidle, evts, rfl⟩ := effect_split_evtConnect hevs
      have hunread : s.conn.unread = [] := by rw [TcpConnection.unread, hp hidle]; rfl
      refine ⟨.inl ?_, .inl (.still rfl rfl (onReady_sameStreams.unread.trans hunread))⟩
      rw [next_conn, effect, onReady, if_pos hidle]

/-! ## Runs -/

/-- What is behind the latest socket is its life. -/
def Lives (s : Sys) : Prop :=
  ∀ x sd w, s.trace = x ++ .socket sd :: w → (∀ sd', .socket sd' ∉ w) → Life sd w s

theorem Lives.reconnectsClean (h : Lives s) : ReconnectsClean s := by
  intro x sd y z htr hsock hy
  have hlife : Life sd (y ++ .handleEvent .evtConnect :: z) s := by
    refine h x sd _ htr fun sd' he => hsock sd' ?_
    simpa using he
  obtain ⟨hacc, hsent⟩ := hlife.sent y z rfl hy
  refine ⟨fun e he => hlife.onSd e ?_, hacc, ⟨_, hsent.nil_left.symm⟩, fun hz => ?_⟩
  · rw [List.mem_append] at he ⊢
    exact he.imp_right (.tail _)
  · obtain ⟨-, hstream⟩ := hlife.session y z rfl hz
    obtain hflow | ⟨hs, -, hpre⟩ := hstream
    · exact ⟨⟨_, hflow.nil_left.symm⟩, fun _ => hflow.nil_left.symm⟩
    · refine ⟨hpre, fun hopen => ?_⟩
      cases hs.symm.trans hopen

/-- Nothing is buffered when a descriptor is opened. -/
theorem SwitchesClean.sendBuffer (hp : SwitchesClean s a) (ha : Enabled s a)
    (ho : opens s a = some sd) (hw : s.conn.tcpWorker = false → Unborn s) :
    s.conn.sendBuffer = [] := by
  cases a with
  | accept fd ctl => exact (hw ha.1).sendBuffer
  | connect b r => exact (hw ha.1).sendBuffer
  | timer r =>
    simp only [opens] at ho
    split at ho
    · cases ho
    · next hopen => exact (hp (by simpa using hopen)).2
  | _ => cases ho

theorem lives_next (ha : Enabled s a) (hp : SwitchesClean s a)
    (hw : s.conn.tcpWorker = false → Unborn s) (h : Lives s) : Lives (next s a) := by
  intro x sd w htr hsock
  rw [next_trace] at htr
  cases ho : opens s a with
  | none =>
    have hnot : ∀ sd, .socket sd ∉ (effect s a).2 := fun sd he => kind_of_opens ho _ he rfl
    obtain ⟨v, hv, rfl⟩ := Trace.split_append_of_notMem htr (hnot sd)
    refine (h x sd v hv fun sd' he => hsock sd' (List.mem_append_left _ he)).next ha ho hp ?_
    rw [hv]
    exact evtConnect_mem
  | some sd' =>
    obtain ⟨evs, hevs, hnot, hlife⟩ := life_of_opens ha ho (hp.sendBuffer ha ho hw)
    rw [hevs] at htr
    obtain ⟨v, hv, rfl⟩ | ⟨y, rfl, hy⟩ := Trace.split_append htr
    · exact absurd (List.mem_append_right v List.mem_cons_self) (hsock sd')
    · cases y with
      | nil =>
        obtain ⟨hsd, rfl⟩ := List.cons.inj hy
        cases hsd
        exact hlife
      | cons e y =>
        rw [List.cons_append] at hy
        exact absurd ((List.cons.inj hy).2 ▸ List.mem_append_right y List.mem_cons_self) (hnot sd)

/-- **A reconnected stream starts clean** in every run in which the timer connects and `on_ready`
opens with empty buffers, and every `msend` appends after the `EVT_CONNECT` of the latest socket. -/
theorem reconnectsClean_of_steps (h : machine.Runs (Sys.start buf) as)
    (hp : machine.Steps SwitchesClean (Sys.start buf) as) :
    ReconnectsClean (machine.exec (Sys.start buf) as) := by
  refine Lives.reconnectsClean (h.invariant_of_steps
    (I := fun s => (s.conn.tcpWorker = false → Unborn s) ∧ Lives s) ?_ hp ⟨fun _ => ?_, ?_⟩).2
  · rintro s a ha hp ⟨hw, hl⟩
    exact ⟨fun h => unborn_next ha h (hw (effect_tcpWorker h)), lives_next ha hp hw hl⟩
  · exact unborn_start
  · intro x sd w htr
    simp [Sys.start] at htr

/-- Packages of two bytes. -/
def pairs : PackageHandler := fun _ _ len => if len < 2 then 0 else 2

/-- The steps from the `EPOLLOUT` of a new descriptor to the end of its `process_event`. -/
def becomingReady (sd : Int) : List Action :=
  [.epollWait [(sd, epollOut)], .processEvent epollOut, .onReady epollOut,
    .read epollOut pairs .again true, .write epollOut .again true, .error epollOut true,
    .finish true]

/-- A session that receives `reads`, then the end of the stream, after which the timer connects. -/
def reconnecting (reads : List (List UInt8)) : List Action :=
  [.epollWait [(5, epollIn)], .processEvent epollIn, .onReady epollIn] ++
    reads.map (fun bytes => .read epollIn pairs (.data bytes) true) ++
    [.read epollIn pairs (.data []) true, .write epollIn .again true, .error epollIn true,
      .finish true, .timer ⟨6, true, true, true⟩] ++ becomingReady 6

/-- Two bytes sent whole, a session that ends between two packages, and a reconnection. -/
def cleanReconnect : List Action :=
  [.connect true ⟨5, true, true, true⟩, .enableReconnect] ++ becomingReady 5 ++
    [.msend 1 [.pod [7, 8]], .push 1 [.pod [7, 8]], .send 1 (.count 2) true] ++ reconnecting []

theorem reconnectsClean_of_steps_cleanReconnect :
    ReconnectsClean (machine.exec (Sys.start fun _ => 0) cleanReconnect) :=
  reconnectsClean_of_steps (by decide) (by decide)

/-- Half a package is received and half a message sent before the session ends; on the new socket
two bytes arrive. -/
def cutReconnect : List Action :=
  [.connect true ⟨5, true, true, true⟩, .enableReconnect] ++ becomingReady 5 ++
    [.msend 1 [.pod [7, 8]], .push 1 [.pod [7, 8]], .send 1 (.count 1) true, .send 1 .again true] ++
    reconnecting [[1]] ++
    [.epollWait [(6, epollIn)], .processEvent epollIn, .onReady epollIn,
      .read epollIn pairs (.data [2, 3]) true]

theorem reconnect_carries_over : ¬ ∀ as : List Action, machine.Runs (Sys.start fun _ => 0) as →
    ReconnectsClean (machine.exec (Sys.start fun _ => 0) as) := by
  intro h
  have hclean := h cutReconnect (by decide)
  let tr := (machine.exec (Sys.start fun _ => 0) cutReconnect).trace
  have hsplit : tr = tr.take 15 ++ .socket 6 ::
      ((tr.drop 16).take 2 ++ .handleEvent .evtConnect :: tr.drop 19) := by decide
  have hsock : ∀ sd, .socket sd ∉ (tr.drop 16).take 2 ++ tr.drop 19 := by
    have : ∀ e ∈ (tr.drop 16).take 2 ++ tr.drop 19, e.establish true = true := by decide
    exact fun sd he => Bool.false_ne_true (this _ he)
  obtain ⟨-, -, -, hdata⟩ := hclean _ _ _ _ hsplit hsock (by decide)
  exact absurd (hdata (by decide)).1 (by decide)

end SNet.Tcp
