import SNet.Library.Machine
import SNet.Tcp.Send
import SNet.Tcp.Receive

/-!
# A connection, its threads and its worker

The machine of one connection from its construction on. Any number of threads call `msend`, `close`
and `enable_reconnect`; the worker takes the events that `epoll_wait` reported one by one through
`process_event`, and runs the reconnect timer between them. A step is one operation as a whole: a
critical section of `msend` or `do_send` under `write_mutex`, with the `mod_event` in it, a `close`, a
`do_connect`, a round of `do_read`, or a test of `process_event`. Interleavings within one of these
are not modelled. A handler that is called back (`handle_data`, `handle_event`) and uses the
connection takes its steps as a thread while the worker stands still.

`effect` is what a step does to the connection, `control` how it moves the threads and the worker.
-/

namespace SNet.Tcp

inductive ThreadPc
  | idle
  /-- In `msend`, after `is_open()` and before `write_mutex`. -/
  | checked (frags : List Fragment)
  /-- Before a critical section of `do_send`, from `msend` or from `do_send` itself. -/
  | sending
  deriving DecidableEq, Repr

/-- Where the worker stands in `process_event(evts)`. -/
inductive WorkerPc
  | waiting
  | entered (evts : EpollEvents)
  | reading (evts : EpollEvents)
  | sending (evts : EpollEvents)
  | erring (evts : EpollEvents)
  | checking
  deriving DecidableEq, Repr

structure Sys where
  conn : TcpConnection
  /-- Everything that happened, oldest first. -/
  trace : List Event := []
  threads : Nat → ThreadPc := fun _ => .idle
  worker : WorkerPc := .waiting
  /-- The events of this connection in the unprocessed rest of `waitEvents`. -/
  batch : List EpollEvents := []
  /-- The timer of `enable_reconnect` was started. -/
  timer : Bool := false

/-- The connection as it is constructed; `read_buffer` is not initialised. -/
def Sys.start (buf : Nat → UInt8) : Sys where
  conn := { readBuffer := buf }

inductive Action
  | accept (fd : Int) (ctl : Bool)
  | connect (needReconnect : Bool) (r : ConnectAnswer)
  | enableReconnect
  | timer (r : ConnectAnswer)
  | msend (t : Nat) (frags : List Fragment)
  | push (t : Nat) (frags : List Fragment)
  | send (t : Nat) (r : SendAnswer) (ctl : Bool)
  | close (ctl : Bool)
  | epollWait (evs : List (Int × EpollEvents))
  | processEvent (evts : EpollEvents)
  | onReady (evts : EpollEvents)
  | read (evts : EpollEvents) (hp : PackageHandler) (r : RecvAnswer) (ctl : Bool)
  | write (evts : EpollEvents) (r : SendAnswer) (ctl : Bool)
  | error (evts : EpollEvents) (ctl : Bool)
  | finish (ctl : Bool)

/-! ## What can be read off a trace -/

/-- The descriptors that are registered with epoll after an event. -/
def Event.register (reg : List Int) : Event → List Int
  | .epollCtl .add sd _ true => sd :: reg
  | .epollCtl .del sd _ true => reg.filter (· ≠ sd)
  | .closeSd _ sd => reg.filter (· ≠ sd)
  | _ => reg

/-- The descriptors registered for this connection. -/
def registered (tr : List Event) : List Int := tr.foldl Event.register []

/-- The bytes appended to `send_buffer`, in the order of the critical sections. -/
def appended (tr : List Event) : List UInt8 :=
  tr.flatMap fun | .append _ _ bytes => bytes | _ => []

/-- The bytes that `::send` accepted. -/
def accepted (tr : List Event) : List UInt8 :=
  tr.flatMap fun | .send _ bytes => bytes | _ => []

/-- The bytes that `::recv` returned. -/
def received (tr : List Event) : List UInt8 :=
  tr.flatMap fun | .recv _ bytes => bytes | _ => []

/-- The packages given to `handle_data`. -/
def packages (tr : List Event) : List (List UInt8) :=
  tr.filterMap fun | .handleData data => some data | _ => none

/-! ## Steps -/

/-- The answers of one `do_connect`: a new number from `socket`, or `-1`, for which `::connect`
fails. A number stands for one descriptor: the kernel may hand it out again to others only. -/
def ConnectAnswer.Possible (tr : List Event) (r : ConnectAnswer) : Prop :=
  (0 < r.sd ∧ .socket r.sd ∉ tr) ∨ (r.sd = -1 ∧ r.connected = false)

instance ConnectAnswer.decidablePossible (tr : List Event) (r : ConnectAnswer) :
    Decidable (r.Possible tr) :=
  inferInstanceAs (Decidable (_ ∨ _))

def Enabled (s : Sys) : Action → Prop
  | .accept fd _ => s.conn.tcpWorker = false ∧ 0 < fd
  | .connect _ r => s.conn.tcpWorker = false ∧ r.Possible s.trace
  | .enableReconnect => s.conn.tcpWorker = true
  | .timer r => s.timer = true ∧ s.worker = .waiting ∧ r.Possible s.trace
  | .msend t _ => s.threads t = .idle
  | .push t frags => s.threads t = .checked frags
  | .send t r _ => s.threads t = .sending ∧ r.Possible s.conn
  | .close _ => True
  | .epollWait evs => s.worker = .waiting ∧ s.batch = [] ∧ (evs.map (·.1)).Nodup ∧
      ∀ e ∈ evs, e.1 ∈ registered s.trace
  | .processEvent evts => s.worker = .waiting ∧ s.batch.head? = some evts
  | .onReady evts => s.worker = .entered evts
  | .read evts _ r _ => s.worker = .reading evts ∧ r.Possible s.conn
  | .write evts r _ => s.worker = .sending evts ∧ r.Possible s.conn
  | .error evts _ => s.worker = .erring evts
  | .finish _ => s.worker = .checking

instance Enabled.decidable (s : Sys) : ∀ a, Decidable (Enabled s a)
  | .accept .. | .connect .. | .timer _ | .send .. | .epollWait _ | .processEvent _ | .read ..
  | .write .. => inferInstanceAs (Decidable (_ ∧ _))
  | .enableReconnect | .msend .. | .push .. | .onReady _ | .error .. | .finish _ =>
    inferInstanceAs (Decidable (_ = _))
  | .close _ => inferInstanceAs (Decidable True)

/-- What a step does to the connection. -/
def effect (s : Sys) : Action → TcpConnection × List Event
  | .accept fd ctl => Tcp.accept s.conn fd ctl
  | .connect needReconnect r => Tcp.connect s.conn needReconnect r
  | .enableReconnect => Tcp.enableReconnect s.conn
  | .timer r => reconnectTimer s.conn r
  | .msend .. | .epollWait _ | .processEvent _ => (s.conn, [])
  | .push t frags => Tcp.push s.conn t frags
  | .send _ r ctl => doSend s.conn r ctl
  | .close ctl => Tcp.close s.conn ctl
  | .onReady _ => Tcp.onReady s.conn
  | .read evts hp r ctl =>
    if evts.has epollIn then ((doRead hp s.conn r ctl).1, (doRead hp s.conn r ctl).2.1)
    else (s.conn, [])
  | .write evts r ctl => if evts.has epollOut then doSend s.conn r ctl else (s.conn, [])
  | .error evts ctl => if evts.has epollErr then Tcp.close s.conn ctl else (s.conn, [])
  | .finish ctl => doClose s.conn ctl

def Sys.setThread (s : Sys) (t : Nat) (pc : ThreadPc) : Sys :=
  { s with threads := fun u => if u = t then pc else s.threads u }

/-- Where a step leaves the threads, the worker and the timer. -/
def control (s : Sys) : Action → Sys
  | .accept .. | .connect .. | .timer _ | .close _ => s
  | .enableReconnect => { s with timer := true }
  | .msend t frags => s.setThread t (if s.conn.isOpen then .checked frags else .idle)
  | .push t _ =>
    -- `is_writing` is taken before the append
    s.setThread t (if s.conn.sendBuffer = [] then .sending else .idle)
  | .send t r _ => s.setThread t (if sendsAgain s.conn r then .sending else .idle)
  | .epollWait evs => { s with batch := evs.map (·.2) }
  | .processEvent evts => { s with worker := .entered evts, batch := s.batch.tail }
  | .onReady evts => { s with worker := .reading evts }
  | .read evts hp r ctl =>
    { s with
      worker := if evts.has epollIn && (doRead hp s.conn r ctl).2.2 then .reading evts
        else .sending evts }
  | .write evts r _ =>
    { s with
      worker := if evts.has epollOut && sendsAgain s.conn r then .sending evts else .erring evts }
  | .error .. => { s with worker := .checking }
  | .finish _ => { s with worker := .waiting }

def next (s : Sys) (a : Action) : Sys :=
  { control s a with conn := (effect s a).1, trace := s.trace ++ (effect s a).2 }

/-- The machine of one connection. -/
def machine : Machine Sys Action where
  enabled := Enabled
  next := next

instance machine.decidableEnabled (s : Sys) (a : Action) : Decidable (machine.enabled s a) :=
  inferInstanceAs (Decidable (Enabled s a))

/-- The steps by which an accepted connection becomes ready, with nothing to read or to write. -/
def accepting (fd : Int) : List Action :=
  [.accept fd true, .epollWait [(fd, epollOut)], .processEvent epollOut, .onReady epollOut,
    .read epollOut handlePackage .again true, .write epollOut .again true, .error epollOut true,
    .finish true]

example : (machine.exec (Sys.start fun _ => 0) (accepting 5)).conn.connStatus = .connOpen := by
  decide

@[simp] theorem machine_next {s : Sys} {a : Action} : machine.next s a = next s a := rfl

@[simp] theorem next_conn {s : Sys} {a : Action} : (next s a).conn = (effect s a).1 := rfl

@[simp] theorem next_trace {s : Sys} {a : Action} :
    (next s a).trace = s.trace ++ (effect s a).2 := rfl

end SNet.Tcp
