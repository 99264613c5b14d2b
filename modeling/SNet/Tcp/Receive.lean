import SNet.Tcp.Connection

/-!
# Receiving

`do_read` and `process_data`. `handle_package` is a function of `read_buffer`, the position of its
`data` argument in it and its `len` argument, so that it may look at every cell behind `data`, as the
source's may.
-/

namespace SNet.Tcp

open Memory

/-- `handle_package(&read_buffer[data], len)`. -/
abbrev PackageHandler := (readBuffer : Nat → UInt8) → (data len : Nat) → Int

/-- The `handle_package` of `TcpConnection` itself. -/
def handlePackage : PackageHandler := fun _ _ len => Int.bmod len (2 ^ 32)

/-- The loop of `process_data` from `readPos` on: the packages given to `handle_data`, and `readPos`
where the loop ends, or `none` where it closes the connection. Every round advances `readPos`, so
`fuel` rounds are enough for `fuel` bytes. -/
def processLoop (hp : PackageHandler) (buf : Nat → UInt8) (pos : Nat) :
    (fuel readPos : Nat) → List (List UInt8) × Option Nat
  | 0, readPos => ([], some readPos)
  | fuel + 1, readPos =>
    if readPos < pos then
      let pkgLen := hp buf readPos pos
      if pkgLen ≤ 0 ∨ (pos : Int) - readPos < pkgLen then
        if kReadBufferSize < pkgLen then ([], none) else ([], some readPos)
      else
        let r := processLoop hp buf pos fuel (readPos + pkgLen.toNat)
        (slice buf readPos pkgLen.toNat :: r.1, r.2)
    else ([], some readPos)

/-- `process_data`; the flag is its result, "there is more to read". -/
def processData (hp : PackageHandler) (c : TcpConnection) (nread : Nat) (ctl : Bool) :
    TcpConnection × List Event × Bool :=
  let pos := c.readBufferPos + nread
  let c := { c with readBufferPos := pos }
  let r := processLoop hp c.readBuffer pos pos 0
  let evs := r.1.map .handleData
  match r.2 with
  | none =>
    let r := close c ctl
    (r.1, evs ++ r.2, false)
  | some readPos =>
    let buf := if readPos < pos then move c.readBuffer readPos (pos - readPos) else c.readBuffer
    ({ c with readBuffer := buf, readBufferPos := pos - readPos }, evs, decide (0 < pos - readPos))

/-- What `::recv` answers: `data []` is its result 0, the end of the stream. -/
inductive RecvAnswer
  | data (bytes : List UInt8)
  /-- `-1` with `EAGAIN` or `EWOULDBLOCK`. -/
  | again
  | failed
  deriving DecidableEq, Repr

/-- `::recv` fails where there is no descriptor, and returns no more than there is room for. -/
def RecvAnswer.Possible (c : TcpConnection) : RecvAnswer → Prop
  | data bytes => 0 < c.connSd ∧ c.readBufferPos + bytes.length ≤ kReadBufferSize
  | again => 0 < c.connSd
  | failed => True

instance RecvAnswer.decidablePossible (c : TcpConnection) :
    ∀ r : RecvAnswer, Decidable (r.Possible c)
  | .data _ => inferInstanceAs (Decidable (_ ∧ _))
  | .again => inferInstanceAs (Decidable (_ < _))
  | .failed => inferInstanceAs (Decidable True)

/-- `do_read` up to its recursive call; the flag tells whether it is made. -/
def doRead (hp : PackageHandler) (c : TcpConnection) (r : RecvAnswer) (ctl : Bool) :
    TcpConnection × List Event × Bool :=
  if 0 < kReadBufferSize - c.readBufferPos then
    match r with
    | .again => (c, [.recv c.connSd []], false)
    | .failed | .data [] =>
      let r := close c ctl
      (r.1, .recv c.connSd [] :: r.2, false)
    | .data bytes =>
      let r := processData hp { c with readBuffer := write c.readBuffer c.readBufferPos bytes }
        bytes.length ctl
      (r.1, .recv c.connSd bytes :: r.2.1, r.2.2)
  else processData hp c 0 ctl

end SNet.Tcp
