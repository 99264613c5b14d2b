import SNet.Tcp.Factory
import SNet.Tcp.System

/-!
# Workers, factories and connections

Any number of `EpollWorker`s, factories and connections; a connection takes the steps of `machine`.
Epoll keeps a raw pointer to a connection, and so does the rest of `waitEvents`; the `shared_ptr`s are
in the `connection_map` of the factory and, after `do_close`, in the task that takes it out of there.

Descriptors belong to the process. `::close` takes one out of every epoll set, and `epoll_ctl` finds
a registration by the number alone, be it that of another connection.
-/

namespace SNet.Tcp

/-! ## The machine -/

/-- A connection and what belongs to it. A handler is known by the number of those created before. -/
structure Handler where
  conn : TcpConnection
  threads : Nat → ThreadPc := fun _ => .idle
  timer : Bool := false
  connId : UInt64
  factory : Nat
  /-- The worker that `accept` or `connect` gives to the connection. -/
  tcpWorker : Nat

/-- The connection as `machine` has it, with its worker at `pc`. The batch is kept by the worker, and
the kernel may use any number again: both lists are empty. -/
def Handler.sys (h : Handler) (pc : WorkerPc) : Sys where
  conn := h.conn
  threads := h.threads
  worker := pc
  timer := h.timer

def Handler.after (h : Handler) (s : Sys) : Handler :=
  { h with conn := s.conn, threads := s.threads, timer := s.timer }

@[simp] theorem Handler.sys_conn {h : Handler} {pc : WorkerPc} : (h.sys pc).conn = h.conn := rfl

@[simp] theorem Handler.after_conn {h : Handler} {s : Sys} : (h.after s).conn = s.conn := rfl

/-- Where a worker stands in `EpollWorker::run`. -/
inductive RunPc
  | polling
  /-- Between two events of `waitEvents`, or in the `timer_loop` that one of them stands for. -/
  | dispatching
  | processing (n : Nat) (pc : WorkerPc)
  /-- In the loop over `tasks`, with these to come. -/
  | running (rest : List Nat)
  deriving DecidableEq, Repr

/-- The place of a worker in `process_event` of the connection `n`, if it serves nobody else. -/
def RunPc.view (n : Nat) : RunPc → Option WorkerPc
  | .dispatching => some .waiting
  | .processing m pc => if m = n then some pc else none
  | .polling | .running _ => none

def RunPc.at (n : Nat) : WorkerPc → RunPc
  | .waiting => .dispatching
  | pc => .processing n pc

/-- The tasks that the loop has still to run. -/
def RunPc.rest : RunPc → List Nat
  | .running rest => rest
  | _ => []

structure EpollWorker where
  /-- The handler that is registered for a descriptor. -/
  epoll : Int → Option Nat := fun _ => none
  /-- The rest of `waitEvents` that is not processed. -/
  waitEvents : List (Nat × EpollEvents) := []
  /-- A task holds the connection that it removes. -/
  tasks : List Nat := []
  pc : RunPc := .polling

/-- What an event of the connection `n` does to a worker, its own or another one. -/
def EpollWorker.observe (own : Bool) (n : Nat) (wk : EpollWorker) : Event → EpollWorker
  | .epollCtl .add sd _ true | .epollCtl .mod sd _ true =>
    if own then { wk with epoll := Function.update wk.epoll sd (some n) } else wk
  | .epollCtl .del sd _ true =>
    if own then { wk with epoll := Function.update wk.epoll sd none } else wk
  | .closeSd _ sd => { wk with epoll := Function.update wk.epoll sd none }
  | .postRemove => if own then { wk with tasks := wk.tasks ++ [n] } else wk
  | _ => wk

structure Process where
  handlers : List Handler := []
  /-- The `connection_map` of every factory. -/
  connectionMap : Nat → UInt64 → Option Nat := fun _ _ => none
  workers : Nat → EpollWorker := fun _ => {}

inductive ProcessAction
  /-- `TcpFactory::create` of the factory `f`; the caller is to set the worker `w`. -/
  | create (f w : Nat) (cid : UInt64) (buf : Nat → UInt8)
  | step (n : Nat) (a : Action)
  | epollWait (w : Nat) (evs : List (Int × EpollEvents))
  | processEvent (w : Nat)
  | beginTasks (w : Nat)
  | runTask (w : Nat)
  | clearTasks (w : Nat)

/-- The steps that the worker of the connection takes. -/
def Action.ofWorker : Action → Bool
  | .timer _ | .onReady _ | .read .. | .write .. | .error .. | .finish _ => true
  | _ => false

namespace Process

/-- The connection `n` in the place that its worker has come to. -/
def view (s : Process) (n : Nat) (h : Handler) : Sys :=
  h.sys (((s.workers h.tcpWorker).pc.view n).getD .waiting)

def setWorker (s : Process) (w : Nat) (wk : EpollWorker) : Process :=
  { s with workers := Function.update s.workers w wk }

/-- Connection ids are distinct. What the kernel answers and what `epoll_wait` reports is open. -/
def Enabled (s : Process) : ProcessAction → Prop
  | .create f _ cid _ => ∀ h ∈ s.handlers, h.factory = f → h.connId ≠ cid
  | .step n a => ∃ h ∈ s.handlers[n]?, Tcp.Enabled (s.view n h) a ∧
      (a.ofWorker → ((s.workers h.tcpWorker).pc.view n).isSome)
  | .epollWait w evs => (s.workers w).pc = .polling ∧ (evs.map (·.1)).Nodup ∧
      ∀ e ∈ evs, ((s.workers w).epoll e.1).isSome
  | .processEvent w => (s.workers w).pc = .dispatching ∧ (s.workers w).waitEvents ≠ []
  | .beginTasks w => (s.workers w).pc = .dispatching ∧ (s.workers w).waitEvents = []
  | .runTask w => (s.workers w).pc.rest ≠ []
  | .clearTasks w => (s.workers w).pc = .running []

instance Enabled.decidable (s : Process) : ∀ a, Decidable (s.Enabled a)
  | .create .. => inferInstanceAs (Decidable (∀ _ ∈ _, _))
  | .step n a => inferInstanceAs (Decidable (∃ h ∈ s.handlers[n]?, Tcp.Enabled (s.view n h) a ∧
      (a.ofWorker → ((s.workers h.tcpWorker).pc.view n).isSome)))
  | .epollWait .. | .processEvent _ | .beginTasks _ => inferInstanceAs (Decidable (_ ∧ _))
  | .runTask _ => inferInstanceAs (Decidable (¬ _))
  | .clearTasks _ => inferInstanceAs (Decidable (_ = _))

/-- A step of the connection `n`, and what it does to the workers. -/
def stepHandler (s : Process) (n : Nat) (h : Handler) (a : Action) : Process :=
  { s with
    handlers := s.handlers.set n (h.after (Tcp.next (s.view n h) a))
    workers := fun w =>
      let wk := (effect (s.view n h) a).2.foldl (EpollWorker.observe (w == h.tcpWorker) n)
        (s.workers w)
      if w = h.tcpWorker ∧ a.ofWorker then
        { wk with pc := .at n (Tcp.next (s.view n h) a).worker }
      else wk }

def next (s : Process) : ProcessAction → Process
  | .create f w cid buf =>
    let conn : TcpConnection := { readBuffer := buf, factory := true }
    let h : Handler := { conn, connId := cid, factory := f, tcpWorker := w }
    { s with
      handlers := s.handlers ++ [h]
      connectionMap := Function.update s.connectionMap f
        (addConnection (s.connectionMap f) cid s.handlers.length) }
  | .step n a =>
    match s.handlers[n]? with
    | none => s
    | some h => s.stepHandler n h a
  | .epollWait w evs =>
    s.setWorker w
      { s.workers w with
        waitEvents := evs.filterMap fun e => ((s.workers w).epoll e.1).map (·, e.2)
        pc := .dispatching }
  | .processEvent w =>
    match (s.workers w).waitEvents with
    | [] => s
    | (n, evts) :: rest =>
      s.setWorker w { s.workers w with waitEvents := rest, pc := .processing n (.entered evts) }
  | .beginTasks w => s.setWorker w { s.workers w with pc := .running (s.workers w).tasks }
  | .runTask w =>
    match (s.workers w).pc.rest with
    | [] => s
    | n :: rest =>
      match s.handlers[n]? with
      | none => s
      | some h =>
        { s.setWorker w { s.workers w with pc := .running rest } with
          connectionMap := Function.update s.connectionMap h.factory
            (removeConnection (s.connectionMap h.factory) h.connId) }
  | .clearTasks w => s.setWorker w { s.workers w with tasks := [], pc := .polling }

/-- The machine of the process. -/
def machine : Machine Process ProcessAction where
  enabled := Enabled
  next := next

instance machine.decidableEnabled (s : Process) (a : ProcessAction) :
    Decidable (machine.enabled s a) := inferInstanceAs (Decidable (s.Enabled a))

end Process

/-! ## What a connection does to a worker -/

/-- The descriptor for which an event leaves the connection registered. -/
def Event.enters : Event → Option Int
  | .epollCtl .add sd _ true | .epollCtl .mod sd _ true => some sd
  | _ => none

namespace EpollWorker

variable {own : Bool} {e : Event} {sd : Int} {m n : Nat} {wk : EpollWorker} {evs : List Event}

theorem observe_frame : (wk.observe own n e).waitEvents = wk.waitEvents ∧
    (wk.observe own n e).pc = wk.pc := by
  unfold observe
  split
  all_goals
    first
    | exact ⟨rfl, rfl⟩
    | split <;> exact ⟨rfl, rfl⟩

theorem foldl_observe_frame : (evs.foldl (observe own n) wk).waitEvents = wk.waitEvents ∧
    (evs.foldl (observe own n) wk).pc = wk.pc := by
  induction evs generalizing wk with
  | nil => exact ⟨rfl, rfl⟩
  | cons e evs ih =>
    rw [List.foldl_cons, ih.1, ih.2]
    exact observe_frame

theorem observe_tasks : (wk.observe own n e).tasks =
    wk.tasks ++ if own = true ∧ e = .postRemove then [n] else [] := by
  cases own with
  | true =>
    cases e with
    | epollCtl op sd evts ok => cases op <;> cases ok <;> simp [observe]
    | _ => simp [observe]
  | false =>
    cases e with
    | epollCtl op sd evts ok => cases op <;> cases ok <;> simp [observe]
    | _ => simp [observe]

theorem mem_foldl_observe_tasks : m ∈ (evs.foldl (observe own n) wk).tasks ↔
    m ∈ wk.tasks ∨ own = true ∧ m = n ∧ .postRemove ∈ evs := by
  induction evs generalizing wk with
  | nil => simp
  | cons e evs ih =>
    rw [List.foldl_cons, ih, observe_tasks]
    grind

theorem observe_epoll (h : (wk.observe own n e).epoll sd = some m) :
    own = true ∧ m = n ∧ e.enters = some sd ∨
      wk.epoll sd = some m ∧ ∀ site, e ≠ .closeSd site sd := by
  have hput : ∀ {sd'}, Function.update wk.epoll sd' (some n) sd = some m →
      m = n ∧ sd' = sd ∨ wk.epoll sd = some m := by
    intro sd' h
    by_cases hsd : sd = sd'
    · subst hsd
      rw [Function.update_self] at h
      exact .inl ⟨(Option.some.inj h).symm, rfl⟩
    · rw [Function.update_of_ne hsd] at h
      exact .inr h
  have hcut : ∀ {sd'}, Function.update wk.epoll sd' none sd = some m →
      sd' ≠ sd ∧ wk.epoll sd = some m := by
    intro sd' h
    by_cases hsd : sd = sd'
    · subst hsd
      rw [Function.update_self] at h
      cases h
    · rw [Function.update_of_ne hsd] at h
      exact ⟨fun heq => hsd heq.symm, h⟩
  have hkeep : ∀ {p : Prop}, (∀ site, e ≠ .closeSd site sd) → wk.epoll sd = some m →
      p ∨ wk.epoll sd = some m ∧ ∀ site, e ≠ .closeSd site sd := fun he h => .inr ⟨h, he⟩
  cases e with
  | epollCtl op sd' evts ok =>
    refine Or.imp_right (fun h => ⟨h, by rintro _ ⟨⟩⟩) ?_
    cases ok with
    | false => cases op <;> exact .inr h
    | true =>
      cases own with
      | false => cases op <;> exact .inr h
      | true =>
        cases op with
        | add | mod =>
          refine (hput h).imp_left ?_
          rintro ⟨rfl, rfl⟩
          exact ⟨rfl, rfl, rfl⟩
        | del => exact .inr (hcut h).2
  | closeSd site sd' =>
    obtain ⟨hne, h⟩ := hcut h
    refine .inr ⟨h, ?_⟩
    rintro _ ⟨⟩
    exact hne rfl
  | postRemove =>
    refine hkeep (by rintro _ ⟨⟩) ?_
    cases own <;> exact h
  | _ => exact hkeep (by rintro _ ⟨⟩) h

/-- A registration after a step of the connection `n` is one that the step entered for `n`, or one
of before whose descriptor the step has not closed. -/
theorem foldl_observe_epoll (h : (evs.foldl (observe own n) wk).epoll sd = some m) :
    (own = true ∧ m = n ∧ ∃ e ∈ evs, e.enters = some sd) ∨
      wk.epoll sd = some m ∧ ∀ site, .closeSd site sd ∉ evs := by
  induction evs generalizing wk with
  | nil => exact .inr ⟨h, fun _ => List.not_mem_nil⟩
  | cons e evs ih =>
    rcases ih h with ⟨hown, hm, e', he', hsd⟩ | ⟨h, hnot⟩
    · exact .inl ⟨hown, hm, e', List.mem_cons_of_mem e he', hsd⟩
    · rcases observe_epoll h with ⟨hown, hm, hsd⟩ | ⟨h, hne⟩
      · exact .inl ⟨hown, hm, e, List.mem_cons_self, hsd⟩
      · refine .inr ⟨h, fun site hmem => ?_⟩
        rcases List.mem_cons.1 hmem with heq | hmem
        · exact hne site heq.symm
        · exact hnot site hmem

end EpollWorker

end SNet.Tcp
