import SNet.Http.Decoder
import SNet.Tcp.Framing

/-!
# Serving requests

`HttpConnection::handle_data`, called by `process_data` with the `handle_package` of `TcpConnection`.
What is written goes through `msend`, which the machine of `SNet.Tcp.System` models; here an event
tells what is written.
-/

namespace SNet.Http

open Tcp

variable {P : HttpParser} {stale : List UInt8} {ctl : Bool} {sent : Int}

/-- What a request shows to the application. -/
structure HttpRequest where
  path : List UInt8
  query : List UInt8
  headers : List (List UInt8 × List UInt8)
  body : List UInt8
  deriving DecidableEq, Repr

def HttpDecoder.request (stale : List UInt8) (d : HttpDecoder) : HttpRequest where
  path := d.httpPath.read stale
  query := d.httpQuery.read stale
  headers := d.headers
  body := d.httpBody

structure HttpResponse where
  statusCode : Nat
  content : List UInt8
  deriving DecidableEq, Repr

/-- The responses that a handler writes, and its result. -/
abbrev HttpCallback := HttpRequest → List HttpResponse × Int

structure HttpHandler where
  httpHandler : Option HttpCallback := none
  contextHandler : Option HttpCallback := none

/-- `HttpHandler::call`; `sent` is what the writer returns. -/
def HttpHandler.call (h : HttpHandler) (sent : Int) (req : HttpRequest) : List HttpResponse × Int :=
  match h.contextHandler with
  | some f => f req
  | none =>
    match h.httpHandler with
    | some f => f req
    | none => ([⟨200, []⟩], sent)

/-- `HttpRouteMap::find`. -/
abbrev HttpRouteMap := List UInt8 → Option HttpHandler

structure HttpConnection where
  tcp : TcpConnection
  httpRouters : Option HttpRouteMap := none

inductive HttpEvent
  /-- A route is looked up for the request; `whole` tells whether the parser completed it, with no
  other one begun behind it, and reported no error. -/
  | dispatch (req : HttpRequest) (whole : Bool)
  | response (rsp : HttpResponse)
  deriving DecidableEq, Repr

def HttpConnection.close (conn : HttpConnection) (ctl : Bool) : HttpConnection :=
  { conn with tcp := (Tcp.close conn.tcp ctl).1 }

/-- `write(HttpResponse)`: `is_connected` is `is_open`. -/
def HttpConnection.write (conn : HttpConnection) (rsp : HttpResponse) (ctl : Bool) :
    HttpConnection × List HttpEvent :=
  (conn.close ctl, if conn.tcp.isOpen then [.response rsp] else [])

/-- `HttpConnection::handle_data`. -/
def HttpConnection.handleData (P : HttpParser) (stale : List UInt8) (conn : HttpConnection)
    (data : List UInt8) (sent : Int) (ctl : Bool) : HttpConnection × List HttpEvent :=
  let r := HttpDecoder.parseRequest P {} data
  if 0 < r.msgLen then
    match conn.httpRouters with
    | none => (conn, [])
    | some routers =>
      let req := r.decoder.request stale
      let (conn', evs) := match routers req.path with
        | some handler =>
          let (rsps, rst) := handler.call sent req
          if rst < 0 then
            let w := conn.write ⟨501, []⟩ ctl
            (w.1, rsps.map HttpEvent.response ++ w.2)
          else (conn, rsps.map HttpEvent.response)
        | none => conn.write ⟨404, []⟩ ctl
      (conn'.close ctl, .dispatch req r.whole :: evs)
  else (conn, [])

/-- `handle_data` for the packages of one `process_data`. -/
def HttpConnection.handleAll (P : HttpParser) (stale : List UInt8) (sent : Int) (ctl : Bool) :
    HttpConnection → List (List UInt8) → HttpConnection × List HttpEvent
  | conn, [] => (conn, [])
  | conn, data :: rest =>
    let r := conn.handleData P stale data sent ctl
    let r' := r.1.handleAll P stale sent ctl rest
    (r'.1, r.2 ++ r'.2)

/-- `::recv` stores `chunk`, and `process_data` is called. -/
def HttpConnection.receive (P : HttpParser) (stale : List UInt8) (conn : HttpConnection)
    (chunk : List UInt8) (sent : Int) (ctl : Bool) : HttpConnection × List HttpEvent :=
  let r := receiveChunk handlePackage conn.tcp chunk ctl
  { conn with tcp := r.1 }.handleAll P stale sent ctl (packages r.2)

/-- The stream arrives in `chunks`. A connection that is not open any more is closed by the
`process_event` that found it so, and receives nothing. -/
def HttpConnection.serve (P : HttpParser) (stale : List UInt8) (sent : Int) (ctl : Bool) :
    HttpConnection → List (List UInt8) → HttpConnection × List HttpEvent
  | conn, [] => (conn, [])
  | conn, chunk :: chunks =>
    if conn.tcp.isOpen then
      let r := conn.receive P stale chunk sent ctl
      let r' := r.1.serve P stale sent ctl chunks
      (r'.1, r.2 ++ r'.2)
    else (conn, [])

/-- The requests for which a route is looked up. -/
def dispatched (evs : List HttpEvent) : List (HttpRequest × Bool) :=
  evs.filterMap fun | .dispatch req whole => some (req, whole) | _ => none

end SNet.Http
