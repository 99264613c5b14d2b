import SNet.Http.ParserDecoding
import SNet.Http.Routing

/-!
# Serving requests

From the bytes of a chunk to the handler: of a request that is received as a chunk the route of its
path is looked up, once, and the handler of the route is called with what was sent
(`requestParser_serves`).
-/

namespace SNet.Http.Parser

open Tcp

variable {m : RequestMessage} {t : UrlText} {stale : List UInt8}

/-- A request to the URL `t` that the parser reads, and the decoder does not refuse. -/
structure Sendable (m : RequestMessage) (t : UrlText) : Prop where
  wellFormed : m.WellFormed requestParser
  body_le : m.body.length + 10 ≤ ullongMax
  url : t.WellFormed
  text : t.text = m.target
  target_lt : m.target.length < 2 ^ 16
  path : t.path ≠ none

/-- The request that a handler gets of it. -/
def sentRequest (m : RequestMessage) (t : UrlText) : HttpRequest where
  path := t.path.getD []
  query := (UrlText.part? t.query).getD []
  headers := m.headers.map fun h => (h.1, h.2.dropWhile isBlank)
  body := m.body

theorem parseRequest_of_sendable (h : Sendable m t) (stale : List UInt8) : ∃ d,
    HttpDecoder.parseRequest requestParser {} m.wire = ⟨d, m.wire.length % 2 ^ 32, true⟩ ∧
      d.request stale = sentRequest m t := by
  obtain ⟨path, hpath⟩ := Option.ne_none_iff_exists'.1 h.path
  obtain ⟨d, hparsed, -, -, hpathView, hqueryView, hbody, hheaders⟩ :=
    parseRequest_of_path h.wellFormed h.body_le h.url h.text h.target_lt hpath
  refine ⟨d, hparsed, ?_⟩
  rw [HttpDecoder.request, hpathView, hqueryView, hbody, hheaders, sentRequest, hpath]
  rfl

theorem requestOf_of_sendable (h : Sendable m t) (stale : List UInt8) :
    Routing.requestOf requestParser stale m.wire = sentRequest m t := by
  obtain ⟨d, hparsed, hd⟩ := parseRequest_of_sendable h stale
  rw [Routing.requestOf, hparsed, hd]

theorem wire_ne_nil (m : RequestMessage) : m.wire ≠ [] := by
  rw [RequestMessage.wire, head_eq]
  simp

theorem msgLen_of_sendable (h : Sendable m t) (hlen : m.wire.length < 2 ^ 32) :
    0 < (HttpDecoder.parseRequest requestParser {} m.wire).msgLen := by
  obtain ⟨d, hparsed, -⟩ := parseRequest_of_sendable h []
  rw [hparsed]
  dsimp only
  rw [Nat.mod_eq_of_lt hlen]
  exact List.length_pos_iff.2 (wire_ne_nil m)

/-- A chunk that is a request is dispatched as it is, and nothing that follows it. -/
theorem dispatched_of_sendable (h : Sendable m t) (hlen : m.wire.length ≤ kReadBufferSize)
    (conn : HttpConnection) (sent : Int) (ctl : Bool) (cs : List (List UInt8))
    (hrouters : conn.httpRouters ≠ none) (hopen : conn.tcp.isOpen = true)
    (hpos : conn.tcp.readBufferPos = 0) :
    dispatched (conn.serve requestParser stale sent ctl (m.wire :: cs)).2 =
      [(sentRequest m t, true)] := by
  obtain ⟨routers, hrouters⟩ := Option.ne_none_iff_exists'.1 hrouters
  obtain ⟨conn', hrouters', -, -, hreceive⟩ := receive_eq hpos (wire_ne_nil m) hlen
  obtain ⟨hdispatched, hclosed⟩ := handleData_of_pos (hrouters'.trans hrouters)
    (msgLen_of_sendable h (Nat.lt_of_le_of_lt hlen (by decide)))
  obtain ⟨d, hparsed, hd⟩ := parseRequest_of_sendable h stale
  rw [dispatched_serve_cons hopen, hreceive, hdispatched, serve_of_closed hclosed, dispatchOf,
    hparsed, hd]
  rfl

/-- The handler of the route is called, and 404 is the answer where there is none. -/
theorem served_of_sendable (h : Sendable m t) (stale : List UInt8) (hlen : m.wire.length < 2 ^ 32)
    (conn : Routing.HttpConnection) (w : Routing.World) {routers : Routing.HttpRouteMap}
    (hrouters : conn.httpRouters = some routers) :
    (conn.handleData w requestParser stale m.wire).called =
        (routers (sentRequest m t).path).toList ∧
      (∀ handler, routers (sentRequest m t).path = some handler →
        blocks (conn.handleData w requestParser stale m.wire).events =
          blocks (conn.serve w (handler.call (sentRequest m t) w.date)).2) ∧
      (routers (sentRequest m t).path = none → conn.tcp.isOpen = true →
        blocks (conn.handleData w requestParser stale m.wire).events =
          [Routing.notFound w]) := by
  have hpos := msgLen_of_sendable h hlen
  have hrequest := requestOf_of_sendable h stale
  cases hroute : routers (sentRequest m t).path with
  | some handler =>
    rw [← hrequest] at hroute
    have hserved := Routing.handleData_of_route (w := w) hrouters hpos hroute
    rw [hrequest] at hserved
    refine ⟨by rw [hserved]; rfl, ?_, fun hnone => by cases hnone⟩
    intro handler' hhandler
    cases hhandler
    rw [hserved]
    exact Routing.blocks_then_close
  | none =>
    rw [← hrequest] at hroute
    have hserved := Routing.handleData_of_noRoute (w := w) hrouters hpos hroute
    refine ⟨by rw [hserved]; rfl, fun _ hhandler => (by cases hhandler), ?_⟩
    intro _ hopen
    rw [hserved]
    refine Routing.blocks_then_close.trans ?_
    rw [Routing.blocks_write, if_pos hopen]
    rfl

/-- **A request is served.** -/
theorem requestParser_serves (h : Sendable m t) (stale : List UInt8) :
    (m.wire.length ≤ kReadBufferSize →
      ∀ (conn : HttpConnection) (sent : Int) (ctl : Bool) (cs : List (List UInt8)),
        conn.httpRouters ≠ none → conn.tcp.isOpen = true → conn.tcp.readBufferPos = 0 →
        dispatched (conn.serve requestParser stale sent ctl (m.wire :: cs)).2 =
          [(sentRequest m t, true)]) ∧
    (m.wire.length < 2 ^ 32 →
      ∀ (conn : Routing.HttpConnection) (w : Routing.World) (routers : Routing.HttpRouteMap),
        conn.httpRouters = some routers →
        (conn.handleData w requestParser stale m.wire).called =
          (routers (sentRequest m t).path).toList ∧
        (∀ handler, routers (sentRequest m t).path = some handler →
          blocks (conn.handleData w requestParser stale m.wire).events =
            blocks (conn.serve w (handler.call (sentRequest m t) w.date)).2) ∧
        (routers (sentRequest m t).path = none → conn.tcp.isOpen = true →
          blocks (conn.handleData w requestParser stale m.wire).events =
            [Routing.notFound w])) := by
  constructor
  · intro hlen conn sent ctl cs hrouters hopen hpos
    exact dispatched_of_sendable h hlen conn sent ctl cs hrouters hopen hpos
  · intro hlen conn w routers hrouters
    exact served_of_sendable h stale hlen conn w hrouters

theorem formRequest_sendable : Sendable formRequest formUrl where
  wellFormed := formRequest_wellFormed
  body_le := by decide
  url := formUrl_wellFormed
  text := rfl
  target_lt := by decide
  path := by simp [formUrl]

theorem requestParser_serves_form :
    dispatched (server.serve requestParser [] 0 true [formRequest.wire]).2 =
      [(sentRequest formRequest formUrl, true)] ∧
    (({ tcp := openConnection, httpRouters := some fun p => if p = ascii "/f" then some {} else
      none } : Routing.HttpConnection).handleData Routing.busy requestParser []
        formRequest.wire).called = [{}] :=
  ⟨(requestParser_serves formRequest_sendable []).1 (by decide) server 0 true [] (by simp [server])
      (by decide) rfl,
    ((requestParser_serves formRequest_sendable []).2 (by decide) _ Routing.busy _ rfl).1.trans
      (congrArg Option.toList (if_pos rfl))⟩

end SNet.Http.Parser
