import SNet.Tcp.Connection

/-!
# Sending

The critical sections of `msend` and `do_send`, each one step under `write_mutex`.
-/

namespace SNet.Tcp

/-- The bytes that a fragment stands for. -/
def Fragment.bytes : Fragment → List UInt8
  | pod bs | stringView bs | string bs => bs
  | cString bs => bs.getD []

/-- `write_data`: the buffer with the fragment appended, and the `uint32_t` returned, which is the
size of the whole buffer. A null C string appends nothing and returns 0. -/
def writeData (buf : List UInt8) : Fragment → List UInt8 × Nat
  | .cString none => (buf, 0)
  | frag => (buf ++ frag.bytes, (buf ++ frag.bytes).length % 2 ^ 32)

/-- `mpush`: the buffer with the fragments appended, and the `int32_t` returned. A `write_data` that
returns 0 ends the recursion. -/
def mpush (buf : List UInt8) : List Fragment → List UInt8 × Int
  | [] => (buf, 0)
  | frag :: frags =>
    let (buf', len) := writeData buf frag
    if 0 < len then
      let (buf'', rest) := mpush buf' frags
      (buf'', Int.bmod (len + rest) (2 ^ 32))
    else (buf', 0)

/-- The critical section of `msend`: `is_writing`, the value of `sent`, and the event of the append. -/
def push (c : TcpConnection) (thread : Nat) (frags : List Fragment) :
    TcpConnection × List Event :=
  let buf := (mpush c.sendBuffer frags).1
  ({ c with sendBuffer := buf }, [.append thread frags (buf.drop c.sendBuffer.length)])

/-- What `::send` answers. A count fits the `int rc` of `do_send`: Linux transfers at most
`0x7ffff000` bytes in one call. -/
inductive SendAnswer
  /-- `rc`, not negative. -/
  | count (rc : Nat)
  /-- `-1` with `EAGAIN` or `EWOULDBLOCK`. -/
  | again
  /-- `-1` with any other error. -/
  | failed
  deriving DecidableEq, Repr

/-- The answers that `::send` gives for `size > 0` bytes: a positive count of at most `size`, or an
error, which is a hard one where there is no descriptor. -/
def SendAnswer.Possible (c : TcpConnection) : SendAnswer → Prop
  | count rc => 0 < c.connSd ∧ 0 < rc ∧ rc ≤ c.sendBuffer.length
  | again => 0 < c.connSd
  | failed => True

instance SendAnswer.decidablePossible (c : TcpConnection) :
    ∀ r : SendAnswer, Decidable (r.Possible c)
  | .count _ => inferInstanceAs (Decidable (_ ∧ _))
  | .again => inferInstanceAs (Decidable (_ < _))
  | .failed => inferInstanceAs (Decidable True)

/-- One critical section of `do_send`. -/
def doSend (c : TcpConnection) (r : SendAnswer) (ctl : Bool) : TcpConnection × List Event :=
  if c.sendBuffer = [] then
    let evts := c.epollEvents &&& ~~~epollOut
    ({ c with epollEvents := evts }, modEvent c.connSd evts ctl)
  else
    match r with
    | .again =>
      let evts := c.epollEvents ||| epollOut
      ({ c with epollEvents := evts }, .send c.connSd [] :: modEvent c.connSd evts ctl)
    | .failed =>
      let r := close c ctl
      (r.1, .send c.connSd [] :: r.2)
    | .count rc =>
      if 0 < rc ∧ rc < c.sendBuffer.length then
        ({ c with sendBuffer := c.sendBuffer.drop rc }, [.send c.connSd (c.sendBuffer.take rc)])
      else
        -- `string_resize(send_buffer, 0)`, also where `rc` is 0
        ({ c with sendBuffer := [] }, [.send c.connSd (c.sendBuffer.take rc)])

/-- Whether `do_send` calls itself once more after the section. -/
def sendsAgain (c : TcpConnection) : SendAnswer → Bool
  | .count rc => 0 < rc && rc < c.sendBuffer.length
  | _ => false

end SNet.Tcp
