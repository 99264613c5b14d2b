import SNet.Pipe.Codec
import SNet.Library.Registry

/-!
# Pipe connections and their sessions

`PipeConnection::handle_data` and `handle_event`, and the `pipe_map` of the factory. The calls that
a package leads to are given as a list (`PipeEffect`). A connection gets its `user_session` from
the constructor and from nowhere else.
-/

namespace SNet.Pipe

variable {σ : Type*}

/-- `PIPE_MSG_SHAKE_HAND`. -/
def pipeMsgShakeHand : UInt32 := 1

/-- `PIPE_MSG_HEART_BEAT`. -/
def pipeMsgHeartBeat : UInt32 := 2

/-- `PIPE_MSG_DATA`. -/
def pipeMsgData : UInt32 := 3

/-- `PipeFactory::pipe_map`; the lookup is `find_user_session`. -/
abbrev PipeMap (σ : Type*) := List UInt8 → Option σ

def PipeMap.addSession (m : PipeMap σ) (pipeId : List UInt8) (session : σ) : PipeMap σ :=
  Function.update m pipeId (some session)

structure PipeConnection (σ : Type*) where
  isPassive : Bool
  /-- Null on a connection that `TcpListener` created. -/
  userSession : Option σ

inductive PipeEffect (σ : Type*)
  | onReady (session : σ)
  | handleEvent (session : σ) (evt : UInt32)
  /-- `session->handle_message(body, length, data)`, through a null pointer for `none`. -/
  | handleMessage (session : Option σ) (body : List UInt8) (data : UInt64)
  | msend (head : PipeMsgHead) (body : List UInt8)
  deriving DecidableEq

def sendHeartbeat (msg : List UInt8) : PipeEffect σ :=
  .msend ⟨.ofNat msg.length, pipeMsgHeartBeat, 0⟩ msg

def sendShakehand (pipeId : List UInt8) : PipeEffect σ :=
  .msend ⟨.ofNat pipeId.length, pipeMsgShakeHand, 0⟩ pipeId

namespace PipeConnection

def processClientHandshake (c : PipeConnection σ) (head : PipeMsgHead) : List (PipeEffect σ) :=
  if 0 < head.length then (c.userSession.map .onReady).toList else []

/-- The handshake is answered whether or not the pipe is known. -/
def processServerHandshake (m : PipeMap σ) (head : PipeMsgHead) (pipeId : List UInt8) :
    List (PipeEffect σ) :=
  if 0 < head.length then
    (match m pipeId with
      | some session => [.onReady session, .handleEvent session 1]
      | none => []) ++ [sendShakehand pipeId]
  else []

/-- `handle_event`. An active connection has a session. -/
def handleEvent (c : PipeConnection σ) (pipeId : σ → List UInt8) :
    Tcp.NetEvent → List (PipeEffect σ)
  | .evtConnect => if c.isPassive then [] else (c.userSession.map (sendShakehand <| pipeId ·)).toList
  | _ => []

/-- `handle_data` on a message. -/
def handleMsg (c : PipeConnection σ) (m : PipeMap σ) (head : PipeMsgHead) (body : List UInt8) :
    List (PipeEffect σ) :=
  if head.type = pipeMsgShakeHand then
    if c.isPassive then processServerHandshake m head body else c.processClientHandshake head
  else if head.type = pipeMsgHeartBeat then if c.isPassive then [sendHeartbeat []] else []
  else [.handleMessage c.userSession body head.data]

/-- `handle_data` on a package. -/
def handleData (o : ByteOrder) (c : PipeConnection σ) (m : PipeMap σ) (data : List UInt8) :
    List (PipeEffect σ) :=
  c.handleMsg m (readMsg o data).1 ((readMsg o data).2.take (readMsg o data).1.length.toNat)

theorem handleData_bytes {o : ByteOrder} {c : PipeConnection σ} {m : PipeMap σ} {f : PipeMsg} :
    c.handleData o m (f.bytes o) = c.handleMsg m f.head f.body := by
  rw [handleData, readMsg_bytes, f.length_eq, List.take_length]

end PipeConnection

end SNet.Pipe
