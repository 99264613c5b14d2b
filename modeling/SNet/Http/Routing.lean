import SNet.Http.Dispatch
import SNet.Http.ResponseWriting
import SNet.Tcp.SendCall

/-!
# Routes and responses

What `handle_data` makes of a complete request: the handler that it calls and what comes to the send
buffer. It looks for no global router, answers 501 although the handler has written, and leaves a
handler that neither writes nor fails without an answer; `answersOnce_iff` says when none of this
happens. The model of `SNet.Http.Connection` is a coarser one, without the send buffer
(`handleData_shows`).
-/

namespace SNet.Http.Routing

open Tcp

/-! ## Handlers -/

/-- The calls of a response that pass it to its writer. -/
inductive Call
  | write (v : Codec.Variant) (msg : List UInt8)
  | writeDefault

/-- A response as a handler has prepared it, and the call by which it writes it. -/
structure Writing where
  response : Codec.HttpResponse := {}
  call : Call
  date : List UInt8

/-- The response afterwards, and what its writer is called with. -/
def Writing.send (w : Writing) : Codec.HttpResponse × List (List UInt8) :=
  match w.call with
  | .write v msg => w.response.send msg true w.date v
  | .writeDefault => w.response.writeDefault true w.date

def Writing.text (w : Writing) : List UInt8 := w.send.1.dump w.date

/-- The writer is called once. -/
theorem Writing.send_eq (w : Writing) : w.send.2 = [w.text] := by
  rw [text, send]
  cases w.call with
  | write v msg => exact Codec.send_eq
  | writeDefault => rfl

/-- What a handler does for a request: it writes or it does not, and returns an integer, which may
depend on what the writer returned. -/
inductive Handling
  | silent (rst : Int)
  | writes (w : Writing) (rst : Int → Int)

abbrev HttpCallback := HttpRequest → Handling

structure HttpHandler where
  httpHandler : Option HttpCallback := none
  contextHandler : Option HttpCallback := none

/-- `HttpHandler::call`: without a handler the response is written as it is. -/
def HttpHandler.call (h : HttpHandler) (req : HttpRequest) (date : List UInt8) : Handling :=
  match h.contextHandler with
  | some f => f req
  | none =>
    match h.httpHandler with
    | some f => f req
    | none => .writes { call := .writeDefault, date := date } id

/-- `HttpRouteMap::find`. -/
abbrev HttpRouteMap := List UInt8 → Option HttpHandler

/-! ## Registering -/

/-- The argument of `register_router` and of `register_global_router`. -/
inductive Router
  | handler (h : HttpHandler)
  | httpHandler (f : Option HttpCallback)
  | contextHandler (f : Option HttpCallback)

/-- An assignment to a handler or to one of its fields. -/
def HttpHandler.assign (h : HttpHandler) : Router → HttpHandler
  | .handler h' => h'
  | .httpHandler f => { h with httpHandler := f }
  | .contextHandler f => { h with contextHandler := f }

structure HttpFactory where
  globalRouter : HttpHandler := {}
  httpRouters : HttpRouteMap := fun _ => none

inductive Registration
  | globalRouter (r : Router)
  | router (path : List UInt8) (r : Router)

def HttpFactory.register (f : HttpFactory) : Registration → HttpFactory
  | .globalRouter r => { f with globalRouter := f.globalRouter.assign r }
  | .router path r =>
    { f with
      httpRouters := fun p =>
        if p = path then some (((f.httpRouters path).getD {}).assign r) else f.httpRouters p }

/-- A factory after registrations. -/
def registered (regs : List Registration) : HttpFactory := regs.foldl HttpFactory.register {}

structure HttpConnection where
  tcp : TcpConnection
  globalRouter : HttpHandler := {}
  httpRouters : Option HttpRouteMap := none

def HttpConnection.initRouters (conn : HttpConnection) (router : HttpHandler)
    (routers : HttpRouteMap) : HttpConnection :=
  { conn with globalRouter := router, httpRouters := some routers }

def HttpFactory.onCreate (f : HttpFactory) (conn : HttpConnection) : HttpConnection :=
  conn.initRouters f.globalRouter f.httpRouters

/-! ## Serving a request -/

/-- What a call of `handle_data` finds: its thread, the time, what `epoll_ctl` returns, and the
answers of `::send` when the handler writes and when the connection does. -/
structure World where
  thread : Nat
  date : List UInt8
  ctl : Bool
  handlerSend : Nat → SendAnswer
  replySend : Nat → SendAnswer

/-- The connection after a call, the handlers that were called, and the events. -/
structure Served where
  conn : HttpConnection
  called : List HttpHandler
  events : List Event

namespace HttpConnection

variable (conn : HttpConnection) (w : World)

def close : HttpConnection × List Event :=
  let r := Tcp.close conn.tcp w.ctl
  ({ conn with tcp := r.1 }, r.2)

def send (data : List UInt8) (rs : Nat → SendAnswer) : (HttpConnection × List Event) × Int :=
  let r := Tcp.send conn.tcp w.thread data rs w.ctl
  (({ conn with tcp := r.1.1 }, r.1.2), r.2)

/-- `write(HttpResponse)`: `is_connected` is `is_open`. -/
def write (rsp : Codec.HttpResponse) : HttpConnection × List Event :=
  let sent := if conn.tcp.isOpen then (conn.send w (rsp.dump w.date) w.replySend).1 else (conn, [])
  let closed := sent.1.close w
  (closed.1, sent.2 ++ closed.2)

/-- The handler runs; its writer is `send`. -/
def handle : Handling → (HttpConnection × List Event) × Int
  | .silent rst => ((conn, []), rst)
  | .writes wr rst =>
    let r := conn.send w wr.text w.handlerSend
    (r.1, rst r.2)

/-- What a registered handler leads to. -/
def serve (h : Handling) : HttpConnection × List Event :=
  let handled := conn.handle w h
  if handled.2 < 0 then
    let replied := handled.1.1.write w (.ofCode 501 [] (ascii "txt"))
    (replied.1, handled.1.2 ++ replied.2)
  else handled.1

/-- `HttpConnection::handle_data`. -/
def handleData (P : HttpParser) (stale data : List UInt8) : Served :=
  let r := HttpDecoder.parseRequest P {} data
  if 0 < r.msgLen then
    match conn.httpRouters with
    | none => ⟨conn, [], []⟩
    | some routers =>
      let req := r.decoder.request stale
      match routers req.path with
      | some handler =>
        let served := conn.serve w (handler.call req w.date)
        let closed := served.1.close w
        ⟨closed.1, [handler], served.2 ++ closed.2⟩
      | none =>
        let replied := conn.write w (.ofCode 404 [] (ascii "txt"))
        let closed := replied.1.close w
        ⟨closed.1, [], replied.2 ++ closed.2⟩
  else ⟨conn, [], []⟩

end HttpConnection

/-! ## The property and its condition -/

def globalRegistered (regs : List Registration) : Bool :=
  regs.any fun | .globalRouter _ => true | .router .. => false

/-- The route for a path, or else the global router, or else none: then 404 is the answer. -/
def chosen (regs : List Registration) (path : List UInt8) : Option HttpHandler :=
  match (registered regs).httpRouters path with
  | some handler => some handler
  | none => if globalRegistered regs then some (registered regs).globalRouter else none

def notFound (w : World) : List UInt8 :=
  (Codec.HttpResponse.ofCode 404 [] (ascii "txt")).dump w.date

/-- The chosen handler is called, one response is appended, and the connection is closing. -/
structure AnswersOnce (regs : List Registration) (path : List UInt8) (w : World) (s : Served) :
    Prop where
  chosen : s.called = (chosen regs path).toList
  once : ∃ (rsp : Codec.HttpResponse) (date : List UInt8), blocks s.events = [rsp.dump date]
  fallback : Routing.chosen regs path = none → blocks s.events = [notFound w]
  closing : s.conn.tcp.connStatus = .connClosing

/-- A handler that does not write fails, and one that writes does not, unless `::send` has given up
and the connection is closing. What the writer returns is the size of the buffer. -/
def Handling.Answers (c : TcpConnection) (w : World) : Handling → Prop
  | .silent rst => rst < 0
  | .writes wr rst => SendFails c wr.text w.handlerSend ∨
      0 ≤ rst (Int.bmod (c.sendBuffer.length + wr.text.length) (2 ^ 32))

/-- A route answers; where there is none no global router is registered. -/
def Answered (regs : List Registration) (c : TcpConnection) (w : World) (req : HttpRequest) :
    Prop :=
  match (registered regs).httpRouters req.path with
  | some handler => (handler.call req w.date).Answers c w
  | none => globalRegistered regs = false

variable {P : HttpParser} {stale data : List UInt8} {conn : HttpConnection} {w : World}
  {c : TcpConnection} {ctl : Bool} {rsp : Codec.HttpResponse} {h : Handling} {wr : Writing}
  {rs : Nat → SendAnswer} {regs : List Registration} {req : HttpRequest}

/-! ## Closing -/

/-- The connection can still be closed. -/
def Live (c : TcpConnection) : Prop := c.connStatus = .connOpen ∨ c.connStatus = .connClosing

theorem not_isOpen_of_closing (h : c.connStatus = .connClosing) : ¬ c.isOpen = true := by
  rw [isOpen_iff, h]
  exact fun hopen => nomatch hopen.2

theorem live_of_open (ho : c.isOpen = true) : Live c := .inl (isOpen_iff.1 ho).2

theorem Live.close (h : Live c) : (Tcp.close c ctl).1.connStatus = .connClosing := by
  rw [close_status]
  rcases h with h | h
  · rw [h]
    rfl
  · rw [h]
    rfl

theorem Live.send (h : Live conn.tcp) : Live (conn.send w data rs).1.1.tcp := by
  cases ho : conn.tcp.isOpen with
  | false =>
    have hsend : (conn.send w data rs).1.1.tcp = conn.tcp :=
      congrArg (·.1.1) (send_of_closed ho)
    rw [hsend]
    exact h
  | true =>
    by_cases hfails : SendFails conn.tcp data rs
    · exact .inr (send_closes ho hfails)
    · exact live_of_open (send_isOpen ho hfails)

theorem Live.write (h : Live conn.tcp) : Live (conn.write w rsp).1.tcp := by
  refine .inr (Live.close ?_)
  split
  · exact h.send
  · exact h

theorem Live.serve (h : Live conn.tcp) {hd : Handling} : Live (conn.serve w hd).1.tcp := by
  have hhandle : Live (conn.handle w hd).1.1.tcp := by
    cases hd with
    | silent rst => exact h
    | writes wr rst => exact h.send
  rw [HttpConnection.serve]
  dsimp only
  split
  · exact hhandle.write
  · exact hhandle

/-! ## What is appended -/

theorem blocks_write : blocks (conn.write w rsp).2 =
    if conn.tcp.isOpen then [rsp.dump w.date] else [] := by
  have hclose : ∀ conn' : HttpConnection, blocks (conn'.close w).2 = [] := fun _ => blocks_close
  rw [HttpConnection.write]
  dsimp only
  rw [blocks_append, hclose, List.append_nil]
  split
  · next ho => exact blocks_send ho
  · rfl

/-- One response comes to an open connection exactly if the handler answers. -/
theorem serve_once (ho : conn.tcp.isOpen = true) :
    (∃ (rsp : Codec.HttpResponse) (date : List UInt8),
      blocks (conn.serve w h).2 = [rsp.dump date]) ↔ h.Answers conn.tcp w := by
  cases h with
  | silent rst =>
    rw [HttpConnection.serve, HttpConnection.handle, Handling.Answers]
    dsimp only
    split
    · next hneg =>
      refine iff_of_true ?_ hneg
      rw [List.nil_append, blocks_write, if_pos ho]
      exact ⟨_, _, rfl⟩
    · next hneg =>
      refine iff_of_false ?_ hneg
      intro ⟨rsp, date, hnil⟩
      cases hnil
  | writes wr rst =>
    have hsent : (conn.send w wr.text w.handlerSend).2 =
        Int.bmod (conn.tcp.sendBuffer.length + wr.text.length) (2 ^ 32) := send_returned ho
    have hblocks : blocks (conn.send w wr.text w.handlerSend).1.2 = [wr.text] := blocks_send ho
    rw [HttpConnection.serve, HttpConnection.handle, Handling.Answers, ← hsent]
    dsimp only
    split
    · next hneg =>
      rw [blocks_append, hblocks, blocks_write]
      by_cases hfails : SendFails conn.tcp wr.text w.handlerSend
      · have hclosing : (conn.send w wr.text w.handlerSend).1.1.tcp.connStatus = .connClosing :=
          send_closes ho hfails
        rw [if_neg (not_isOpen_of_closing hclosing), List.append_nil]
        exact iff_of_true ⟨wr.send.1, wr.date, rfl⟩ (.inl hfails)
      · have hopen : (conn.send w wr.text w.handlerSend).1.1.tcp.isOpen = true :=
          send_isOpen ho hfails
        rw [if_pos hopen]
        refine iff_of_false ?_ fun hanswers => ?_
        · intro ⟨rsp, date, htwo⟩
          exact List.cons_ne_nil _ _ (List.cons.inj htwo).2
        · exact hanswers.elim hfails (Int.not_le.2 hneg)
    · next hneg =>
      rw [hblocks]
      exact iff_of_true ⟨wr.send.1, wr.date, rfl⟩ (.inr (Int.not_lt.1 hneg))

/-- Nothing comes to a connection that is not open. -/
theorem blocks_serve_of_closed (ho : conn.tcp.isOpen = false) : blocks (conn.serve w h).2 = [] := by
  have hhandle : (conn.handle w h).1 = (conn, []) := by
    cases h with
    | silent rst => rfl
    | writes wr rst =>
      have hsend : Tcp.send conn.tcp w.thread wr.text w.handlerSend w.ctl = ((conn.tcp, []), -1) :=
        send_of_closed ho
      rw [HttpConnection.handle, HttpConnection.send, hsend]
  rw [HttpConnection.serve, hhandle]
  dsimp only
  split
  · rw [List.nil_append, blocks_write, ho]
    rfl
  · rfl

/-! ## Whole requests -/

theorem calls_complete {cbs : List (Callback × Nat)}
    (h : (HttpDecoder.calls P d cbs).2.1 = true) : ∃ stop, (.messageComplete, stop) ∈ cbs := by
  induction cbs generalizing d with
  | nil => cases h
  | cons q cbs ih =>
    obtain ⟨cb, stop'⟩ := q
    rw [HttpDecoder.calls] at h
    split at h
    · rw [Bool.or_eq_true, decide_eq_true_eq] at h
      rcases h with rfl | h
      · exact ⟨stop', .head _⟩
      · rcases ih h with ⟨stop, hstop⟩
        exact ⟨stop, .tail _ hstop⟩
    · cases h

/-- A complete request is answered: `parse` returns its length. -/
theorem msgLen_pos_of_completes (hP : P.Documented) (hlen : data.length < 2 ^ 32)
    (hcompletes : HttpDecoder.completes P {} data = true) :
    0 < (HttpDecoder.parseRequest P {} data).msgLen := by
  cases hcalls : HttpDecoder.calls P {} (P.execute P.init data).callbacks with
  | mk d r =>
    obtain ⟨complete, stop⟩ := r
    rw [HttpDecoder.completes, hcalls] at hcompletes
    rw [HttpDecoder.parseRequest, hcalls]
    cases stop with
    | some stop => simp at hcompletes
    | none =>
      obtain ⟨rfl, hok⟩ : complete = true ∧ (P.execute P.init data).ok = true := by
        simpa using hcompletes
      obtain ⟨stop, hstop⟩ := calls_complete (congrArg (·.2.1) hcalls)
      have hne : data ≠ [] :=
        List.ne_nil_of_length_pos (Nat.lt_trans Nat.one_pos (hP.message_ends data stop hstop))
      dsimp only
      rw [Nat.mod_eq_of_lt (Nat.lt_of_le_of_lt (hP.nparsed_le P.init data hne) hlen)]
      exact hP.nparsed_pos P.init data hne hok

/-- The request that `data` holds. -/
def requestOf (P : HttpParser) (stale data : List UInt8) : HttpRequest :=
  (HttpDecoder.parseRequest P {} data).decoder.request stale

/-- What is done for a request whose path has a route. -/
theorem handleData_of_route {routers : HttpRouteMap} {handler : HttpHandler}
    (hr : conn.httpRouters = some routers)
    (hpos : 0 < (HttpDecoder.parseRequest P {} data).msgLen)
    (hroute : routers (requestOf P stale data).path = some handler) :
    conn.handleData w P stale data =
      let served := conn.serve w (handler.call (requestOf P stale data) w.date)
      ⟨(served.1.close w).1, [handler], served.2 ++ (served.1.close w).2⟩ := by
  rw [requestOf] at hroute
  rw [HttpConnection.handleData, if_pos hpos, hr]
  dsimp only
  rw [hroute]
  rfl

theorem handleData_of_noRoute {routers : HttpRouteMap} (hr : conn.httpRouters = some routers)
    (hpos : 0 < (HttpDecoder.parseRequest P {} data).msgLen)
    (hroute : routers (requestOf P stale data).path = none) :
    conn.handleData w P stale data =
      let replied := conn.write w (.ofCode 404 [] (ascii "txt"))
      ⟨(replied.1.close w).1, [], replied.2 ++ (replied.1.close w).2⟩ := by
  rw [requestOf] at hroute
  rw [HttpConnection.handleData, if_pos hpos, hr]
  dsimp only
  rw [hroute]

theorem blocks_then_close {evs : List Event} : blocks (evs ++ (conn.close w).2) = blocks evs := by
  have hclose : blocks (conn.close w).2 = [] := blocks_close
  rw [blocks_append, hclose, List.append_nil]

/-! ## The coarser model -/

/-- The responses among the events of the coarser model. -/
def responses (evs : List HttpEvent) : List Http.HttpResponse :=
  evs.filterMap fun | .response rsp => some rsp | .dispatch .. => none

/-- The text of a response with this status and content. -/
def Shows (rsp : Http.HttpResponse) (text : List UInt8) : Prop :=
  ∃ (r : Codec.HttpResponse) (date : List UInt8), text = r.dump date ∧
    r.statusCode.toNat = rsp.statusCode ∧ r.body = rsp.content

/-- What a handler writes and returns, if `::send` does not give up. -/
def Handling.coarse (c : TcpConnection) : Handling → List Http.HttpResponse × Int
  | .silent rst => ([], rst)
  | .writes wr rst => ([⟨wr.send.1.statusCode.toNat, wr.send.1.body⟩],
      rst (Int.bmod (c.sendBuffer.length + wr.text.length) (2 ^ 32)))

/-- The connection of the coarser model, with what its handlers come to. -/
def HttpConnection.coarse (conn : HttpConnection) (date : List UInt8) : Http.HttpConnection where
  tcp := conn.tcp
  httpRouters := conn.httpRouters.map fun routers path => (routers path).map fun handler =>
    { httpHandler := some fun req => (handler.call req date).coarse conn.tcp }

theorem shows_ofCode {code : UInt32} {date : List UInt8} :
    Shows ⟨code.toNat, []⟩ ((Codec.HttpResponse.ofCode code [] (ascii "txt")).dump date) :=
  ⟨_, date, rfl, rfl, rfl⟩

/-- While `::send` does not give up, the texts are the responses of the coarser model. -/
theorem serve_shows (ho : conn.tcp.isOpen = true)
    (hsend : ∀ text, ¬ SendFails conn.tcp text w.handlerSend) :
    List.Forall₂ Shows
      ((h.coarse conn.tcp).1 ++ if (h.coarse conn.tcp).2 < 0 then [⟨501, []⟩] else [])
      (blocks (conn.serve w h).2) := by
  have hreply : Shows ⟨501, []⟩ ((Codec.HttpResponse.ofCode 501 [] (ascii "txt")).dump w.date) :=
    shows_ofCode
  cases h with
  | silent rst =>
    rw [HttpConnection.serve, HttpConnection.handle, Handling.coarse]
    dsimp only
    split
    · rw [List.nil_append, List.nil_append, blocks_write, if_pos ho]
      exact .cons hreply .nil
    · exact .nil
  | writes wr rst =>
    have hsent : (conn.send w wr.text w.handlerSend).2 =
        Int.bmod (conn.tcp.sendBuffer.length + wr.text.length) (2 ^ 32) := send_returned ho
    have hblocks : blocks (conn.send w wr.text w.handlerSend).1.2 = [wr.text] := blocks_send ho
    have hopen : (conn.send w wr.text w.handlerSend).1.1.tcp.isOpen = true :=
      send_isOpen ho (hsend wr.text)
    have hwritten : Shows ⟨wr.send.1.statusCode.toNat, wr.send.1.body⟩ wr.text :=
      ⟨wr.send.1, wr.date, rfl, rfl, rfl⟩
    rw [HttpConnection.serve, HttpConnection.handle, Handling.coarse, ← hsent]
    dsimp only
    split
    · rw [blocks_append, hblocks, blocks_write, if_pos hopen]
      exact .cons hwritten (.cons hreply .nil)
    · rw [hblocks]
      exact .cons hwritten .nil

theorem responses_map {rsps : List Http.HttpResponse} :
    responses (rsps.map HttpEvent.response) = rsps := by
  induction rsps with
  | nil => rfl
  | cons rsp rsps ih => exact congrArg (rsp :: ·) ih

theorem responses_append {evs evs' : List HttpEvent} :
    responses (evs ++ evs') = responses evs ++ responses evs' := List.filterMap_append

theorem responses_dispatch {whole : Bool} {evs : List HttpEvent} :
    responses (.dispatch req whole :: evs) = responses evs := rfl

/-- The responses of the coarser model for a path with a route. -/
theorem responses_of_route {conn : Http.HttpConnection} {routers : Http.HttpRouteMap}
    {handler : Http.HttpHandler} {sent : Int} (ho : conn.tcp.isOpen = true)
    (hr : conn.httpRouters = some routers)
    (hpos : 0 < (HttpDecoder.parseRequest P {} data).msgLen)
    (hroute : routers (requestOf P stale data).path = some handler) :
    responses (conn.handleData P stale data sent ctl).2 =
      (handler.call sent (requestOf P stale data)).1 ++
        if (handler.call sent (requestOf P stale data)).2 < 0 then [⟨501, []⟩] else [] := by
  have hwrite : responses (conn.write ⟨501, []⟩ ctl).2 = [⟨501, []⟩] := by
    rw [Http.HttpConnection.write, if_pos ho]
    rfl
  rw [requestOf] at hroute ⊢
  rw [Http.HttpConnection.handleData, if_pos hpos, hr]
  dsimp only
  rw [hroute, responses_dispatch]
  dsimp only
  split
  · rw [responses_append, responses_map, hwrite]
  · rw [responses_map, List.append_nil]

theorem responses_of_noRoute {conn : Http.HttpConnection} {routers : Http.HttpRouteMap}
    {sent : Int} (ho : conn.tcp.isOpen = true) (hr : conn.httpRouters = some routers)
    (hpos : 0 < (HttpDecoder.parseRequest P {} data).msgLen)
    (hroute : routers (requestOf P stale data).path = none) :
    responses (conn.handleData P stale data sent ctl).2 = [⟨404, []⟩] := by
  have hwrite : responses (conn.write ⟨404, []⟩ ctl).2 = [⟨404, []⟩] := by
    rw [Http.HttpConnection.write, if_pos ho]
    rfl
  rw [requestOf] at hroute
  rw [Http.HttpConnection.handleData, if_pos hpos, hr]
  dsimp only
  rw [hroute, responses_dispatch, hwrite]

/-- **The coarser model** answers with the same responses. -/
theorem handleData_shows {sent : Int} (ho : conn.tcp.isOpen = true)
    (hsend : ∀ text, ¬ SendFails conn.tcp text w.handlerSend) :
    List.Forall₂ Shows
      (responses ((conn.coarse w.date).handleData P stale data sent w.ctl).2)
      (blocks (conn.handleData w P stale data).events) := by
  have ho' : (conn.coarse w.date).tcp.isOpen = true := ho
  by_cases hpos : 0 < (HttpDecoder.parseRequest P {} data).msgLen
  · cases hr : conn.httpRouters with
    | none =>
      have hr' : (conn.coarse w.date).httpRouters = none := by
        rw [HttpConnection.coarse, hr]
        rfl
      rw [handleData_of_none hr', HttpConnection.handleData, if_pos hpos, hr]
      exact .nil
    | some routers =>
      have hr' : (conn.coarse w.date).httpRouters = some fun path =>
          (routers path).map fun handler =>
            { httpHandler := some fun req => (handler.call req w.date).coarse conn.tcp } := by
        rw [HttpConnection.coarse, hr]
        rfl
      cases hroute : routers (requestOf P stale data).path with
      | none =>
        rw [responses_of_noRoute ho' hr' hpos (by rw [hroute]; rfl),
          handleData_of_noRoute hr hpos hroute, blocks_then_close, blocks_write, if_pos ho]
        exact .cons shows_ofCode .nil
      | some handler =>
        rw [responses_of_route ho' hr' hpos (by rw [hroute]; rfl),
          handleData_of_route hr hpos hroute, blocks_then_close]
        exact serve_shows ho hsend
  · rw [handleData_of_zero hpos, HttpConnection.handleData, if_neg hpos]
    exact .nil

/-- **One response per request**: a complete request is answered once, by the handler that is
registered for its path, exactly if the connection is open and there is a route, whose handler
writes or fails but does not do both, or no global router. -/
theorem answersOnce_iff (hP : P.Documented) (hlen : data.length < 2 ^ 32)
    (hcompletes : HttpDecoder.completes P {} data = true) :
    AnswersOnce regs (requestOf P stale data).path w
        (((registered regs).onCreate conn).handleData w P stale data) ↔
      conn.tcp.isOpen = true ∧ Answered regs conn.tcp w (requestOf P stale data) := by
  have hpos := msgLen_pos_of_completes hP hlen hcompletes
  obtain ⟨conn', hconn⟩ : ∃ conn', (registered regs).onCreate conn = conn' := ⟨_, rfl⟩
  have hr : conn'.httpRouters = some (registered regs).httpRouters := by
    rw [← hconn]
    rfl
  have htcp : conn.tcp = conn'.tcp := by
    rw [← hconn]
    rfl
  rw [hconn, htcp, Answered]
  cases hroute : (registered regs).httpRouters (requestOf P stale data).path with
  | some handler =>
    have hchosen : chosen regs (requestOf P stale data).path = some handler := by
      rw [chosen, hroute]
    rw [handleData_of_route hr hpos hroute]
    constructor
    · intro ⟨_, honce, _, _⟩
      rw [blocks_then_close] at honce
      cases ho : conn'.tcp.isOpen with
      | true => exact ⟨rfl, (serve_once ho).1 honce⟩
      | false =>
        obtain ⟨rsp, date, hblocks⟩ := honce
        rw [blocks_serve_of_closed ho] at hblocks
        cases hblocks
    · intro ⟨ho, hanswers⟩
      constructor
      · rw [hchosen]
        rfl
      · rw [blocks_then_close]
        exact (serve_once ho).2 hanswers
      · intro hnone
        rw [hchosen] at hnone
        cases hnone
      · exact (live_of_open ho).serve.close
  | none =>
    have hchosen : chosen regs (requestOf P stale data).path =
        if globalRegistered regs then some (registered regs).globalRouter else none := by
      rw [chosen, hroute]
    rw [handleData_of_noRoute hr hpos hroute]
    constructor
    · intro ⟨hcalled, honce, _, _⟩
      rw [blocks_then_close, blocks_write] at honce
      rw [hchosen] at hcalled
      obtain ⟨rsp, date, hblocks⟩ := honce
      split at hblocks
      · next ho =>
        refine ⟨ho, ?_⟩
        split at hcalled
        · cases hcalled
        · next hglobal => exact Bool.eq_false_iff.2 hglobal
      · cases hblocks
    · intro ⟨ho, hglobal⟩
      have hblocks : blocks (conn'.write w (.ofCode 404 [] (ascii "txt"))).2 = [notFound w] := by
        rw [blocks_write, if_pos ho]
        rfl
      rw [hglobal, if_neg Bool.false_ne_true] at hchosen
      constructor
      · rw [hchosen]
        rfl
      · rw [blocks_then_close, hblocks]
        exact ⟨_, _, rfl⟩
      · intro _
        rw [blocks_then_close, hblocks]
      · exact (live_of_open ho).write.close

/-- A handler that says hello. -/
def hello : Router :=
  .httpHandler <| some fun _ =>
    .writes { call := .write (.write 200) (ascii "hello"), date := Codec.epoch } fun _ => 0

/-- The socket takes nothing. -/
def busy : World where
  thread := 1
  date := Codec.epoch
  ctl := true
  handlerSend _ := .again
  replySend _ := .again

theorem answersOnce_iff_hello :
    AnswersOnce [.globalRouter (.handler {}), .router [47] hello]
      (requestOf getParser [] getRequest).path busy
      (((registered [.globalRouter (.handler {}), .router [47] hello]).onCreate
        { tcp := openConnection }).handleData busy getParser [] getRequest) := by
  have hpath : (requestOf getParser [] getRequest).path = [47] := by decide
  refine (answersOnce_iff getParser_documented (by decide) (by decide)).2 ⟨by decide, ?_⟩
  rw [Answered, hpath]
  exact .inr (Int.le_refl 0)

/-- A global router is registered, and 404 is the answer. -/
theorem global_not_called : ¬ ∀ (P : HttpParser) (stale data : List UInt8)
    (regs : List Registration) (conn : HttpConnection) (w : World), P.Documented →
    data.length < 2 ^ 32 → HttpDecoder.completes P {} data = true →
    conn.tcp.isOpen = true → AnswersOnce regs (requestOf P stale data).path w
      (((registered regs).onCreate conn).handleData w P stale data) := by
  intro h
  have hcompletes : HttpDecoder.completes getParser {} getRequest = true := by decide
  have hpos := msgLen_pos_of_completes getParser_documented (by decide) hcompletes
  have hcalled := (h getParser [] getRequest [.globalRouter hello] { tcp := openConnection } busy
    getParser_documented (by decide) hcompletes (by decide)).chosen
  rw [handleData_of_noRoute rfl hpos rfl] at hcalled
  cases hcalled

end SNet.Http.Routing
