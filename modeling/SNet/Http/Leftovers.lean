import SNet.Http.Pieces

/-!
# What a decoder keeps

`init_parser` and the callbacks that begin a message reset nothing. So a message shows, besides what
it brings, the headers of all earlier messages of the decoder, and an earlier body, path or query
where it has none itself; `showsOnlyItself_iff` says what must not be left for a message to come out
as from a new decoder.
-/

namespace SNet.Http

/-! ## Histories -/

/-- What the views into the string of an earlier call show when the string is replaced: other bytes,
as many as before. -/
structure Reused where
  shows : List UInt8 → List UInt8
  length_shows : ∀ bs, (shows bs).length = bs.length

/-- `raw_data` is replaced, into which all views but those of the URL point. -/
def HttpDecoder.reuse (d : HttpDecoder) (r : Reused) : HttpDecoder :=
  { d with
    headers := d.headers.map (Prod.map r.shows r.shows)
    parseHeader := Prod.map r.shows r.shows d.parseHeader
    httpBody := r.shows d.httpBody }

/-- A call of `parse` on a request that may have been used before. -/
structure Parse where
  memory : Reused
  data : List UInt8

def HttpDecoder.parse (P : HttpParser) (d : HttpDecoder) (p : Parse) : HttpDecoder :=
  (HttpDecoder.parseRequest P (d.reuse p.memory) p.data).decoder

/-- The decoder of a request after some calls, successful or not. -/
def HttpDecoder.history (P : HttpParser) (earlier : List Parse) : HttpDecoder :=
  earlier.foldl (HttpDecoder.parse P) {}

/-- A message that a decoder completes, since its head is accepted: behind the callbacks `before` of
the same input, in a call that comes after some others. -/
structure Occurrence (P : HttpParser) (m : CutMessage) where
  earlier : List Parse
  last : Parse
  before : List (Callback × Nat)
  message : List (Callback × Nat)
  behind : List (Callback × Nat)
  callbacks : (P.execute P.init last.data).callbacks = before ++ message ++ behind
  through :
    (HttpDecoder.calls P ((HttpDecoder.history P earlier).reuse last.memory) before).2.2 = none
  carries : m.Carries message
  accepted : P.accepts m.url.last = true

namespace Occurrence

variable {P : HttpParser} {m : CutMessage} (o : Occurrence P m)

/-- The decoder where the message begins. -/
def decoder : HttpDecoder :=
  (HttpDecoder.calls P ((HttpDecoder.history P o.earlier).reuse o.last.memory) o.before).1

/-- The decoder where the message is complete. -/
def after : HttpDecoder := (HttpDecoder.calls P o.decoder o.message).1

end Occurrence

/-! ## The property and its condition -/

/-- Two decoders show the same request, whatever is found where the URL of an earlier one was. -/
structure SameRequest (d d' : HttpDecoder) : Prop where
  path : ∀ stale, d.httpPath.read stale = d'.httpPath.read stale
  query : ∀ stale, d.httpQuery.read stale = d'.httpQuery.read stale
  getHeader : ∀ key, d.getHeader key = d'.getHeader key
  headers : d.headers = d'.headers
  body : d.httpBody = d'.httpBody

variable {P : HttpParser} {m : CutMessage} {d d' : HttpDecoder} {v : View} {url : List UInt8}
  {cbs cbs' : List (Callback × Nat)} {r r' : HttpDecoder × Bool × Option Nat}

/-- The message comes out as from a new decoder that gets nothing else. -/
def Occurrence.ShowsOnlyItself (o : Occurrence P m) : Prop :=
  ∀ cbs, m.Carries cbs → SameRequest o.after (HttpDecoder.calls P {} cbs).1

/-- What the decoder `d` has left the message brings itself; no header is left. -/
structure CutMessage.Covers (P : HttpParser) (m : CutMessage) (d : HttpDecoder) : Prop where
  headers : d.headers = []
  path : P.parseUrl m.url.last = none → d.httpPath = .bytes []
  query : (∀ info ∈ P.parseUrl m.url.last, info.query = none) → d.httpQuery = .bytes []
  body : m.body = none → d.httpBody = []

/-! ## Views of an earlier URL -/

/-- A view that survives the string behind it shows nothing. -/
theorem read_invalidate : (∀ stale, v.invalidate.read stale = []) ↔ v = .bytes [] := by
  constructor
  · intro h
    cases v with
    | dangling => cases h [0]
    | bytes bs =>
      cases bs with
      | nil => rfl
      | cons b bs => cases h [0]
  · rintro rfl stale
    rfl

theorem pathView_iff (haccepted : P.accepts url = true) :
    (∀ stale, (P.pathView url v.invalidate).read stale =
      (P.pathView url (.bytes [])).read stale) ↔ (P.parseUrl url = none → v = .bytes []) := by
  rw [HttpParser.accepts] at haccepted
  rw [HttpParser.pathView, HttpParser.pathView]
  cases hinfo : P.parseUrl url with
  | none => exact read_invalidate.trans ⟨fun h _ => h, fun h => h rfl⟩
  | some info =>
    obtain ⟨path, query⟩ := info
    rw [hinfo] at haccepted
    cases path with
    | none => cases haccepted
    | some path =>
      refine iff_of_true (fun _ => rfl) fun hnone => ?_
      cases hnone

theorem queryView_iff (haccepted : P.accepts url = true) :
    (∀ stale, (P.queryView url v.invalidate).read stale =
      (P.queryView url (.bytes [])).read stale) ↔
      ((∀ info ∈ P.parseUrl url, info.query = none) → v = .bytes []) := by
  rw [HttpParser.accepts] at haccepted
  rw [HttpParser.queryView, HttpParser.queryView]
  cases hinfo : P.parseUrl url with
  | none =>
    refine read_invalidate.trans ⟨fun h _ => h, fun h => h fun info hmem => ?_⟩
    cases hmem
  | some info =>
    obtain ⟨path, query⟩ := info
    rw [hinfo] at haccepted
    cases path with
    | none => cases haccepted
    | some path =>
      cases query with
      | none =>
        refine read_invalidate.trans ⟨fun h _ => h, fun h => h fun info hmem => ?_⟩
        rw [← Option.mem_some.1 hmem]
      | some query =>
        refine iff_of_true (fun _ => rfl) fun hall => ?_
        cases hall _ rfl

/-! ## Messages of their own -/

/-- What a new decoder has and what this one has of the same message. -/
theorem sameRequest_iff (haccepted : P.accepts m.url.last = true)
    (hd : Delivered P d m r) (hd' : Delivered P {} m r') :
    SameRequest r.1 r'.1 ↔ m.Covers P d := by
  have hheaders : r.1.headers = r'.1.headers ↔ d.headers = [] := by
    rw [hd.headers, hd'.headers]
    exact List.append_left_inj _
  have hpath : (∀ stale, r.1.httpPath.read stale = r'.1.httpPath.read stale) ↔
      (P.parseUrl m.url.last = none → d.httpPath = .bytes []) := by
    rw [hd.path, hd'.path]
    exact pathView_iff haccepted
  have hquery : (∀ stale, r.1.httpQuery.read stale = r'.1.httpQuery.read stale) ↔
      ((∀ info ∈ P.parseUrl m.url.last, info.query = none) → d.httpQuery = .bytes []) := by
    rw [hd.query, hd'.query]
    exact queryView_iff haccepted
  have hbody : r.1.httpBody = r'.1.httpBody ↔ (m.body = none → d.httpBody = []) := by
    rw [hd.body, hd'.body, if_pos haccepted, if_pos haccepted]
    cases m.body with
    | none => exact ⟨fun h _ => h, fun h => h rfl⟩
    | some b =>
      refine iff_of_true rfl fun hnone => ?_
      cases hnone
  constructor
  · intro h
    exact ⟨hheaders.1 h.headers, hpath.1 h.path, hquery.1 h.query, hbody.1 h.body⟩
  · intro h
    refine ⟨hpath.2 h.path, hquery.2 h.query, fun key => ?_, hheaders.2 h.headers, hbody.2 h.body⟩
    rw [HttpDecoder.getHeader, HttpDecoder.getHeader, hheaders.2 h.headers]

/-- **What is left of earlier messages**: a message shows only what it brings itself exactly if no
header of an earlier one is left, and none of its path, query and body where it has none itself. -/
theorem showsOnlyItself_iff (o : Occurrence P m) : o.ShowsOnlyItself ↔ m.Covers P o.decoder := by
  have hafter : Delivered P o.decoder m _ := delivered o.carries
  constructor
  · intro h
    exact (sameRequest_iff o.accepted hafter (delivered o.carries)).1 (h _ o.carries)
  · intro h cbs hm
    exact (sameRequest_iff o.accepted hafter (delivered hm)).2 h

/-- Callbacks that do not stop the parser return 0. -/
theorem quiet_of_through (h : (HttpDecoder.calls P d cbs).2.2 = none) :
    HttpDecoder.Quiet P d (cbs.map (·.1)) := by
  induction cbs generalizing d with
  | nil => trivial
  | cons q cbs ih =>
    obtain ⟨cb, stop⟩ := q
    rw [HttpDecoder.calls] at h
    split at h
    · next hzero => exact ⟨hzero, ih h⟩
    · cases h

theorem parseRequest_decoder {data : List UInt8} : (HttpDecoder.parseRequest P d data).decoder =
    (HttpDecoder.calls P d (P.execute P.init data).callbacks).1 := by
  rw [HttpDecoder.parseRequest]
  split
  · next heq => rw [heq]
  · next heq => rw [heq]

/-- The request has this decoder after the call if the message is the last of the input. -/
theorem after_eq_parse (o : Occurrence P m) (h : o.behind = []) :
    (HttpDecoder.history P o.earlier).parse P o.last = o.after := by
  have hquiet := quiet_of_through o.through
  rw [HttpDecoder.parse, parseRequest_decoder, o.callbacks, h, List.append_nil,
    HttpDecoder.calls_append hquiet, Occurrence.after, Occurrence.decoder,
    HttpDecoder.calls_of_quiet hquiet]

/-! ## Two requests in one input -/

/-- `POST /a` with a header `X: 1` and a body. -/
def postRequest : List Callback :=
  [.messageBegin, .url (ascii "/a"), .headerField (ascii "X"), .headerValue (ascii "1"),
    .headerField (ascii "Content-Length"), .headerValue (ascii "1"), .headersComplete 3,
    .body (ascii "x"), .messageComplete]

/-- `GET /b`. -/
def plainRequest : List Callback :=
  [.messageBegin, .url (ascii "/b"), .headersComplete 1, .messageComplete]

def bothRequests : List UInt8 :=
  ascii "POST /a HTTP/1.1" ++ crlf ++ ascii "X: 1" ++ crlf ++ ascii "Content-Length: 1" ++ crlf ++
    crlf ++ ascii "x" ++ ascii "GET /b HTTP/1.1" ++ crlf ++ crlf

def bothParser : HttpParser :=
  Codec.scriptedRequestParser (postRequest ++ plainRequest) (some ⟨some ⟨0, 2⟩, none⟩) 65 65 true

def plainMessage : CutMessage where
  url := ⟨[], ascii "/b"⟩
  headers := []
  method := 1

def secondRequest : Occurrence bothParser plainMessage where
  earlier := []
  last := ⟨⟨id, fun _ => rfl⟩, bothRequests⟩
  before := postRequest.map fun cb => (cb, 65)
  message := plainRequest.map fun cb => (cb, 65)
  behind := []
  callbacks := rfl
  through := by decide
  carries := rfl
  accepted := rfl

/-- The second request shows the headers and the body of the first. -/
theorem second_shows_first : ¬ ∀ (P : HttpParser) (m : CutMessage) (o : Occurrence P m),
    o.ShowsOnlyItself := by
  intro h
  have hsame := h _ _ secondRequest _ secondRequest.carries
  exact absurd hsame.body (by decide)

end SNet.Http
