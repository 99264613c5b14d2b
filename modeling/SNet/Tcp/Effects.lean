import SNet.Library.Flow
import SNet.Tcp.System

/-!
# What the functions of a connection leave alone

Every event is of one kind (`Event.kind`), and each function emits events of few kinds. The
functions that change the status or the descriptor keep both buffers (`SameStreams`) and carry no
bytes. So only `push`, `do_send` and `process_data` matter to the two byte streams.
-/

namespace SNet.Tcp

variable {c c' : TcpConnection} {evs evs' : List Event} {ctl : Bool} {sd : Int}
  {evts : EpollEvents} {hp : PackageHandler} {r : ConnectAnswer}

/-- Both buffers are as they were. -/
structure SameStreams (c c' : TcpConnection) : Prop where
  readBuffer : c'.readBuffer = c.readBuffer
  readBufferPos : c'.readBufferPos = c.readBufferPos
  sendBuffer : c'.sendBuffer = c.sendBuffer

theorem SameStreams.refl : SameStreams c c := ⟨rfl, rfl, rfl⟩

theorem SameStreams.unread (h : SameStreams c c') : c'.unread = c.unread := by
  simp only [TcpConnection.unread, h.readBuffer, h.readBufferPos]

/-! ## Kinds of events -/

inductive EventKind
  | opening
  | kernel
  | shut
  | status
  | append
  | send
  | receive
  deriving DecidableEq

def Event.kind : Event → EventKind
  | .closeSd .doClose _ | .postRemove => .shut
  | .socket _ | .epollCtl .add .. => .opening
  | .connect .. | .closeSd .. | .epollCtl .. | .closing => .kernel
  | .handleEvent _ => .status
  | .append .. => .append
  | .send .. => .send
  | .recv .. | .handleData _ => .receive

@[simp] theorem appended_append : appended (evs ++ evs') = appended evs ++ appended evs' :=
  List.flatMap_append

@[simp] theorem accepted_append : accepted (evs ++ evs') = accepted evs ++ accepted evs' :=
  List.flatMap_append

@[simp] theorem received_append : received (evs ++ evs') = received evs ++ received evs' :=
  List.flatMap_append

@[simp] theorem packages_append : packages (evs ++ evs') = packages evs ++ packages evs' :=
  List.filterMap_append

theorem appended_eq_nil (h : ∀ e ∈ evs, e.kind ≠ .append) : appended evs = [] := by
  refine List.flatMap_eq_nil_iff.2 fun e he => ?_
  have := h e he
  cases e <;> first | rfl | exact absurd rfl this

theorem accepted_eq_nil (h : ∀ e ∈ evs, e.kind ≠ .send) : accepted evs = [] := by
  refine List.flatMap_eq_nil_iff.2 fun e he => ?_
  have := h e he
  cases e <;> first | rfl | exact absurd rfl this

theorem received_eq_nil (h : ∀ e ∈ evs, e.kind ≠ .receive) : received evs = [] := by
  refine List.flatMap_eq_nil_iff.2 fun e he => ?_
  have := h e he
  cases e <;> first | rfl | exact absurd rfl this

theorem packages_eq_nil (h : ∀ e ∈ evs, e.kind ≠ .receive) : packages evs = [] := by
  refine List.filterMap_eq_nil_iff.2 fun e he => ?_
  have := h e he
  cases e <;> first | rfl | exact absurd rfl this

@[simp] theorem packages_map_handleData {ps : List (List UInt8)} :
    packages (ps.map .handleData) = ps := by
  induction ps with
  | nil => rfl
  | cons p ps ih => exact congrArg (p :: ·) ih

@[simp] theorem received_map_handleData {ps : List (List UInt8)} :
    received (ps.map .handleData) = [] := by simp [received, List.flatMap_map]

/-! ## Descriptors and status -/

theorem modEvent_kind : ∀ e ∈ modEvent sd evts ctl, e.kind = .kernel := by
  unfold modEvent
  split <;> cases ctl <;> simp [Event.kind]

/-- What is done to the new descriptor `sd`. -/
def Event.SetsUp (sd : Int) (e : Event) : Prop :=
  e.kind = .kernel ∨ 0 < sd ∧ ∃ evts ok, e = .epollCtl .add sd evts ok

theorem Event.SetsUp.kind {e : Event} (h : e.SetsUp sd) : e.kind = .opening ∨ e.kind = .kernel := by
  rcases h with h | ⟨-, evts, ok, rfl⟩
  · exact .inr h
  · exact .inl rfl

theorem Event.SetsUp.ne_socket {e : Event} {sd' : Int} (h : e.SetsUp sd) : e ≠ .socket sd' := by
  rcases h with h | ⟨-, evts, ok, rfl⟩
  · rintro rfl
    cases h
  · rintro ⟨⟩

theorem addEvent_setsUp : ∀ e ∈ addEvent sd evts ctl, e.SetsUp sd := by
  unfold addEvent
  split
  · next hsd =>
    refine List.forall_mem_cons.2 ⟨.inr ⟨hsd, evts, ctl, rfl⟩, ?_⟩
    cases ctl with
    | true => exact List.forall_mem_nil _
    | false => exact List.forall_mem_singleton.2 (.inl rfl)
  · exact List.forall_mem_nil _

theorem delEvent_kind : ∀ e ∈ delEvent sd ctl, e.kind = .kernel := by
  unfold delEvent
  split <;> simp [Event.kind]

theorem notifySend_kind : ∀ e ∈ (notifySend c ctl).2, e.kind = .kernel := by
  unfold notifySend
  split
  · exact modEvent_kind
  · simp

theorem notifySend_sameStreams : SameStreams c (notifySend c ctl).1 := by
  unfold notifySend
  split <;> exact ⟨rfl, rfl, rfl⟩

theorem close_kind : ∀ e ∈ (close c ctl).2, e.kind = .kernel := by
  unfold close
  split
  · exact List.forall_mem_cons.2 ⟨rfl, notifySend_kind⟩
  · simp

theorem close_sameStreams : SameStreams c (close c ctl).1 := by
  unfold close
  split
  · have h : SameStreams { c with connStatus := .connClosing }
        (notifySend { c with connStatus := .connClosing } ctl).1 := notifySend_sameStreams
    exact ⟨h.1, h.2, h.3⟩
  · exact .refl

theorem onReady_kind : ∀ e ∈ (onReady c).2, e.kind = .status := by
  unfold onReady
  split <;> simp [Event.kind]

theorem onReady_sameStreams : SameStreams c (onReady c).1 := by
  unfold onReady
  split <;> exact ⟨rfl, rfl, rfl⟩

theorem disconnect_kind : ∀ e ∈ disconnect c ctl, e.kind = .kernel ∨ e.kind = .status := by
  intro e he
  rw [disconnect, List.mem_append, List.mem_ite_nil_right, List.mem_singleton] at he
  obtain ⟨-, he⟩ | rfl := he
  · exact .inl (delEvent_kind e he)
  · exact .inr rfl

theorem doClose_kind :
    ∀ e ∈ (doClose c ctl).2, e.kind = .kernel ∨ e.kind = .status ∨ e.kind = .shut := by
  have hdis : ∀ e ∈ disconnect c ctl, e.kind = .kernel ∨ e.kind = .status ∨ e.kind = .shut :=
    fun e he => (disconnect_kind e he).imp_right .inl
  unfold doClose
  split
  · split
    · exact hdis
    · intro e he
      rw [List.mem_append, List.mem_append, List.mem_ite_nil_right, List.mem_ite_nil_right,
        List.mem_singleton, List.mem_singleton] at he
      obtain he | ⟨-, rfl⟩ | ⟨-, rfl⟩ := he
      · exact hdis e he
      all_goals exact .inr (.inr rfl)
  · simp

theorem doClose_sameStreams : SameStreams c (doClose c ctl).1 := by
  unfold doClose
  split
  · split <;> exact ⟨rfl, rfl, rfl⟩
  · exact .refl

theorem doConnect_kind : ∀ e ∈ (doConnect c r).2, e.kind = .opening ∨ e.kind = .kernel := by
  unfold doConnect
  split
  · simp [Event.kind]
  split
  · simp [Event.kind]
  · exact List.forall_mem_cons.2 ⟨.inl rfl, List.forall_mem_cons.2 ⟨.inr rfl, fun e he =>
      (addEvent_setsUp e he).kind⟩⟩

theorem doConnect_sameStreams : SameStreams c (doConnect c r).1 := by
  unfold doConnect
  split
  · exact ⟨rfl, rfl, rfl⟩
  split <;> exact ⟨rfl, rfl, rfl⟩

theorem reconnectTimer_kind :
    ∀ e ∈ (reconnectTimer c r).2, e.kind = .opening ∨ e.kind = .kernel := by
  unfold reconnectTimer
  split
  · simp
  · exact doConnect_kind

theorem reconnectTimer_sameStreams : SameStreams c (reconnectTimer c r).1 := by
  unfold reconnectTimer
  split
  · exact .refl
  · exact doConnect_sameStreams

theorem accept_kind : ∀ e ∈ (accept c sd ctl).2, e.kind = .opening ∨ e.kind = .kernel :=
  List.forall_mem_cons.2 ⟨.inl rfl, fun e he => (addEvent_setsUp e he).kind⟩

theorem connect_sameStreams {b : Bool} : SameStreams c (connect c b r).1 := by
  have h : SameStreams (init { c with factory := true, needReconnect := b, tcpWorker := true } 0)
      (connect c b r).1 := doConnect_sameStreams
  exact ⟨h.1, h.2, h.3⟩

/-! ## Sending and receiving -/

theorem doSend_kind {r : SendAnswer} :
    ∀ e ∈ (doSend c r ctl).2, e.kind = .kernel ∨ e.kind = .send := by
  unfold doSend
  split
  · exact fun e he => .inl (modEvent_kind e he)
  cases r with
  | again => exact List.forall_mem_cons.2 ⟨.inr rfl, fun e he => .inl (modEvent_kind e he)⟩
  | failed => exact List.forall_mem_cons.2 ⟨.inr rfl, fun e he => .inl (close_kind e he)⟩
  | count rc => dsimp only; split <;> simp [Event.kind]

theorem processData_kind {n : Nat} :
    ∀ e ∈ (processData hp c n ctl).2.1, e.kind = .kernel ∨ e.kind = .receive := by
  have hdata : ∀ ps : List (List UInt8), ∀ e ∈ ps.map Event.handleData, e.kind = .receive := by
    simp [Event.kind]
  unfold processData
  dsimp only
  split
  · intro e he
    exact (List.mem_append.1 he).elim (fun h => .inr (hdata _ e h)) fun h => .inl (close_kind e h)
  · exact fun e he => .inr (hdata _ e he)

theorem processData_sendBuffer {n : Nat} :
    (processData hp c n ctl).1.sendBuffer = c.sendBuffer := by
  unfold processData
  dsimp only
  split
  · exact close_sameStreams.sendBuffer
  · rfl

variable {r : RecvAnswer}

theorem doRead_kind : ∀ e ∈ (doRead hp c r ctl).2.1, e.kind = .kernel ∨ e.kind = .receive := by
  have hclose : ∀ e ∈ (close c ctl).2, e.kind = .kernel ∨ e.kind = .receive :=
    fun e he => .inl (close_kind e he)
  unfold doRead
  split
  · split
    · simp [Event.kind]
    · exact List.forall_mem_cons.2 ⟨.inr rfl, hclose⟩
    · exact List.forall_mem_cons.2 ⟨.inr rfl, hclose⟩
    · exact List.forall_mem_cons.2 ⟨.inr rfl, processData_kind⟩
  · exact processData_kind

theorem doRead_sendBuffer : (doRead hp c r ctl).1.sendBuffer = c.sendBuffer := by
  unfold doRead
  split
  · split
    · rfl
    · exact close_sameStreams.sendBuffer
    · exact close_sameStreams.sendBuffer
    · exact processData_sendBuffer
  · exact processData_sendBuffer

/-! ## Steps -/

variable {s : Sys} {a : Action}

/-- The kinds of the events of a step. -/
def Action.kinds : Action → List EventKind
  | .accept .. | .connect .. | .timer _ => [.opening, .kernel]
  | .push .. => [.append]
  | .send .. | .write .. => [.kernel, .send]
  | .read .. => [.kernel, .receive]
  | .onReady _ => [.status]
  | .finish _ => [.kernel, .status, .shut]
  | _ => [.kernel]

theorem effect_kind {e : Event} (he : e ∈ (effect s a).2) : e.kind ∈ a.kinds := by
  have kernel : ∀ {evs : List Event}, (∀ e ∈ evs, e.kind = .kernel) → e ∈ evs →
      e.kind ∈ [EventKind.kernel] := fun h he => List.mem_singleton.2 (h e he)
  cases a with
  | push t frags => exact List.mem_singleton.1 he ▸ .head _
  | accept fd ctl => simpa [Action.kinds] using accept_kind e he
  | connect b r => simpa [Action.kinds] using doConnect_kind e he
  | enableReconnect | msend | epollWait | processEvent => cases he
  | timer r => simpa [Action.kinds] using reconnectTimer_kind e he
  | send t r ctl => simpa [Action.kinds] using doSend_kind e he
  | close ctl => exact kernel close_kind he
  | onReady evts => exact List.mem_singleton.2 (onReady_kind e he)
  | finish ctl => simpa [Action.kinds] using doClose_kind e he
  | read evts hp r ctl =>
    simp only [effect] at he
    split at he
    · simpa [Action.kinds] using doRead_kind e he
    · cases he
  | write evts r ctl =>
    simp only [effect] at he
    split at he
    · simpa [Action.kinds] using doSend_kind e he
    · cases he
  | error evts ctl =>
    simp only [effect] at he
    split at he
    · exact kernel close_kind he
    · cases he

theorem kind_append {e : Event} (he : e ∈ (effect s a).2) (hk : e.kind = .append) :
    ∃ t frags, a = .push t frags := by
  have := effect_kind he
  rw [hk] at this
  cases a <;> simp [Action.kinds] at this ⊢

theorem kind_shut {e : Event} (he : e ∈ (effect s a).2) (hk : e.kind = .shut) :
    ∃ ctl, a = .finish ctl := by
  have := effect_kind he
  rw [hk] at this
  cases a <;> simp [Action.kinds] at this ⊢

end SNet.Tcp
