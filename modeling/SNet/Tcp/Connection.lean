import SNet.Library.Memory
import Mathlib.Data.BitVec

/-!
# The connection and its calls into the kernel

`TcpConnection`, `EpollWorker::add_event`/`mod_event`/`del_event` and the functions that change a
connection's status and descriptor. A function of the source becomes a function from the connection
to the connection after the call and the list of observable events of the call, in order. What the
kernel answers is an argument: `ctl` is the outcome of the one `epoll_ctl` that a call makes.
-/

namespace SNet.Tcp

/-- `enum { kReadBufferSize }`. -/
def kReadBufferSize : Nat := 1024 * 1024 * 8

inductive ConnStatus
  | connIdle
  | connOpen
  | connClosing
  | connClosed
  deriving DecidableEq, Repr

/-- The value of the enumerator, for the comparisons of statuses. -/
def ConnStatus.toNat : ConnStatus → Nat
  | connIdle => 0
  | connOpen => 1
  | connClosing => 2
  | connClosed => 3

/-- The events of `snet_handler.h` that a connection raises. -/
inductive NetEvent
  | evtConnect
  | evtDisconnect
  deriving DecidableEq, Repr

/-! ## Masks of epoll events -/

abbrev EpollEvents := BitVec 32

def epollIn : EpollEvents := 0x001#32
def epollOut : EpollEvents := 0x004#32
def epollErr : EpollEvents := 0x008#32
def epollEt : EpollEvents := 0x80000000#32

/-- `mask == (evts & mask)`. -/
def EpollEvents.has (evts mask : EpollEvents) : Bool := mask == (evts &&& mask)

inductive EpollOp
  | add
  | mod
  | del
  deriving DecidableEq, Repr

/-! ## What can be observed of a call -/

/-- The four places that pass a descriptor to `::close`. -/
inductive CloseSite
  | doClose
  | doConnect
  | addEvent
  | modEvent
  deriving DecidableEq, Repr

/-- A fragment of an `msend` call, by the overload of `write_data` that takes it: the bytes of a
POD, of a `std::string_view`, of a `std::string`, or of a C string up to its terminator
(`none` is the null pointer). A `char *` that is not `const` goes to the overload for PODs, with the
bytes of the pointer. -/
inductive Fragment
  | pod (bytes : List UInt8)
  | stringView (bytes : List UInt8)
  | string (bytes : List UInt8)
  | cString (bytes : Option (List UInt8))
  deriving DecidableEq, Repr

/-- The calls that a connection makes into the kernel and the application, and the two steps of its
own that the properties refer to: the bytes that a critical section of `msend` appended, and a
`close()` that took effect. -/
inductive Event
  /-- The descriptor came from `socket` or `accept4`. -/
  | socket (sd : Int)
  | connect (sd : Int) (ok : Bool)
  | closeSd (site : CloseSite) (sd : Int)
  /-- `bytes` is what `::send` accepted, nothing where it failed. -/
  | send (sd : Int) (bytes : List UInt8)
  | recv (sd : Int) (bytes : List UInt8)
  | epollCtl (op : EpollOp) (sd : Int) (evts : EpollEvents) (ok : Bool)
  | append (thread : Nat) (frags : List Fragment) (bytes : List UInt8)
  | closing
  | handleEvent (evt : NetEvent)
  | handleData (data : List UInt8)
  | postRemove
  deriving DecidableEq, Repr

/-- The fields of `TcpConnection` that the functions below read or write. `tcpWorker` and `factory`
tell whether the pointers are set. Cells of `read_buffer` behind `read_buffer_pos` hold whatever
earlier traffic left there. -/
structure TcpConnection where
  readBuffer : Nat → UInt8
  readBufferPos : Nat := 0
  sendBuffer : List UInt8 := []
  connStatus : ConnStatus := .connIdle
  connSd : Int := -1
  epollEvents : EpollEvents := 0
  needReconnect : Bool := false
  tcpWorker : Bool := false
  factory : Bool := false

namespace TcpConnection

/-- The bytes of `read_buffer` that have been received and not been handed on. -/
def unread (c : TcpConnection) : List UInt8 := Memory.slice c.readBuffer 0 c.readBufferPos

def isOpen (c : TcpConnection) : Bool := 0 < c.connSd && c.connStatus == .connOpen

end TcpConnection

/-! ## `EpollWorker` -/

/-- `add_event`: on failure the descriptor is closed and its number stays with the caller. -/
def addEvent (sd : Int) (evts : EpollEvents) (ctl : Bool) : List Event :=
  if 0 < sd then
    .epollCtl .add sd evts ctl :: if ctl then [] else [.closeSd .addEvent sd]
  else []

/-- `mod_event`, with the same treatment of a failure. -/
def modEvent (sd : Int) (evts : EpollEvents) (ctl : Bool) : List Event :=
  if 0 < sd then
    .epollCtl .mod sd evts ctl :: if ctl then [] else [.closeSd .modEvent sd]
  else []

def delEvent (sd : Int) (ctl : Bool) : List Event :=
  if 0 < sd then [.epollCtl .del sd 0 ctl] else []

/-! ## Status and descriptor -/

def notifySend (c : TcpConnection) (ctl : Bool) : TcpConnection × List Event :=
  if c.tcpWorker then
    let evts := c.epollEvents ||| epollOut
    ({ c with epollEvents := evts }, modEvent c.connSd evts ctl)
  else (c, [])

def close (c : TcpConnection) (ctl : Bool) : TcpConnection × List Event :=
  if c.connStatus.toNat < ConnStatus.connClosing.toNat then
    let r := notifySend { c with connStatus := .connClosing } ctl
    (r.1, .closing :: r.2)
  else (c, [])

def onReady (c : TcpConnection) : TcpConnection × List Event :=
  if c.connStatus = .connIdle then
    ({ c with connStatus := .connOpen }, [.handleEvent .evtConnect])
  else (c, [])

/-- The calls of `do_close` before it looks at `need_reconnect`. -/
def disconnect (c : TcpConnection) (ctl : Bool) : List Event :=
  (if c.tcpWorker then delEvent c.connSd ctl else []) ++ [.handleEvent .evtDisconnect]

/-- `do_close`. With `need_reconnect` the descriptor is neither closed nor reset. -/
def doClose (c : TcpConnection) (ctl : Bool) : TcpConnection × List Event :=
  if c.connStatus = .connClosing then
    if c.needReconnect then ({ c with connStatus := .connIdle }, disconnect c ctl)
    else
      let evs := if 0 < c.connSd then [.closeSd .doClose c.connSd] else []
      let evs' := if c.factory then [.postRemove] else []
      ({ c with connStatus := .connClosed, connSd := if 0 < c.connSd then -1 else c.connSd },
        disconnect c ctl ++ (evs ++ evs'))
  else (c, [])

/-- The answers to the calls of one `do_connect`: the result of `socket`, whether `remote_host` is
an IPv4 address, whether `::connect` succeeded, and the outcome of `epoll_ctl`. -/
structure ConnectAnswer where
  sd : Int
  inetPton : Bool
  connected : Bool
  ctl : Bool
  deriving DecidableEq, Repr

/-- `do_connect`: both failures leave the new number in `conn_sd`. -/
def doConnect (c : TcpConnection) (r : ConnectAnswer) : TcpConnection × List Event :=
  let c' := { c with connSd := r.sd }
  if !r.inetPton then (c', [.socket r.sd])
  else if !r.connected then
    (c', [.socket r.sd, .connect r.sd false, .closeSd .doConnect r.sd])
  else
    let evts := c.epollEvents ||| epollOut
    ({ c' with epollEvents := evts },
      .socket r.sd :: .connect r.sd true :: addEvent r.sd evts r.ctl)

/-- The part of `enable_reconnect` that the connection keeps; the timer is the worker's. -/
def enableReconnect (c : TcpConnection) : TcpConnection × List Event :=
  ({ c with needReconnect := true }, [])

/-- The timer of `enable_reconnect`. -/
def reconnectTimer (c : TcpConnection) (r : ConnectAnswer) : TcpConnection × List Event :=
  if c.isOpen then (c, []) else doConnect c r

def init (c : TcpConnection) (fd : Int) : TcpConnection :=
  { c with
    epollEvents := epollEt ||| epollIn ||| epollErr
    connSd := if 0 < fd then fd else c.connSd }

/-- How `TcpListener::process_event` sets up a connection for the descriptor of `accept4`. -/
def accept (c : TcpConnection) (fd : Int) (ctl : Bool) : TcpConnection × List Event :=
  (init { c with factory := true, tcpWorker := true } fd,
    .socket fd :: addEvent fd (epollEt ||| epollIn ||| epollOut ||| epollErr) ctl)

/-- `TcpConnector::connect`. -/
def connect (c : TcpConnection) (needReconnect : Bool) (r : ConnectAnswer) :
    TcpConnection × List Event :=
  doConnect (init { c with factory := true, needReconnect, tcpWorker := true } 0) r

end SNet.Tcp
