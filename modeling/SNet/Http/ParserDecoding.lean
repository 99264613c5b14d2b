import SNet.Http.ParserRequests

/-!
# Decoding requests

What the decoder makes of a request with the parser that it has (`requestParser_decodes`): its
method, its URL with the path and the query in it, its headers and its body. A URL without a path is
refused.
-/

namespace SNet.Http.Parser

open HttpDecoder (after Quiet)

variable {m : RequestMessage} {info : HttpParserUrl} {u : Url} {t : UrlText} {path : UrlField}

/-- The decoder in front of the end of a head, which has seen the URL and the headers. -/
theorem after_lines (P : HttpParser) (m : RequestMessage) :
    Quiet P {} ([.messageBegin, .url m.target] ++ m.headers.flatMap RequestMessage.headerCallbacks) ∧
      ∃ last, after P {} ([.messageBegin, .url m.target] ++
          m.headers.flatMap RequestMessage.headerCallbacks) =
        { requestUrl := m.target, httpUrl := m.target
          headers := m.headers.map fun h => (h.1, h.2.dropWhile isBlank), parseHeader := last } := by
  obtain ⟨hquiet, last, hlast⟩ := @HttpDecoder.after_headers P
    (after P {} [.messageBegin, .url m.target]) m.headers
  refine ⟨HttpDecoder.Quiet.append ⟨rfl, rfl, trivial⟩ hquiet, last, ?_⟩
  rw [HttpDecoder.after_append, hlast]
  rfl

/-- The path and the query that the decoder shows behind a request. -/
theorem views_after {P : HttpParser} (hinfo : P.parseUrl m.target = some info)
    (hpath : info.path = some path) :
    (after P {} m.callbacks).httpPath = .bytes ((m.target.drop path.off).take path.len) ∧
      (after P {} m.callbacks).httpQuery =
        .bytes ((info.query.map fun f => (m.target.drop f.off).take f.len).getD []) := by
  obtain ⟨-, last, hlast⟩ := after_lines P m
  have hhead : after P {} m.headCallbacks = (HttpDecoder.parseHeaderComplete P
      { requestUrl := m.target, httpUrl := m.target
        headers := m.headers.map fun h => (h.1, h.2.dropWhile isBlank), parseHeader := last }
      m.method.number).1 := by
    rw [RequestMessage.headCallbacks, HttpDecoder.after_append, hlast]
    rfl
  have hrest (d : HttpDecoder) :
      (after P d (m.bodyCallbacks ++ [.messageComplete])).httpPath = d.httpPath ∧
        (after P d (m.bodyCallbacks ++ [.messageComplete])).httpQuery = d.httpQuery := by
    unfold RequestMessage.bodyCallbacks
    split <;> exact ⟨rfl, rfl⟩
  rw [RequestMessage.callbacks, List.append_assoc, HttpDecoder.after_append, (hrest _).1, (hrest _).2,
    hhead, HttpDecoder.parseHeaderComplete, hinfo]
  dsimp only
  rw [hpath]
  cases info.query with
  | none => exact ⟨rfl, rfl⟩
  | some query => exact ⟨rfl, rfl⟩

theorem decoder_of_reads {P : HttpParser} (hP : P.Reads m) (hm : m.WellFormed P)
    (hinfo : P.parseUrl m.target = some info) (hpath : info.path = some path) :
    (HttpDecoder.parseRequest P {} m.wire).decoder = after P {} m.callbacks := by
  have hcallbacks := (hP hm).1
  obtain ⟨hquiet, -⟩ := Codec.after_callbacks (m := m) hinfo hpath
  rw [HttpDecoder.parseRequest, HttpDecoder.calls_of_quiet (hcallbacks ▸ hquiet), hcallbacks]

/-- A request whose URL has no path is refused by `on_headers_complete`, so it is not a whole one. -/
theorem refused_of_no_path {P : HttpParser} (hP : P.Reads m) (hm : m.WellFormed P)
    (hinfo : P.parseUrl m.target = some info) (hpath : info.path = none) :
    (HttpDecoder.parseRequest P {} m.wire).whole = false := by
  obtain ⟨hquiet, last, hlast⟩ := after_lines P m
  have hcallbacks := (hP hm).1
  have hsplit : m.callbacks = ([.messageBegin, .url m.target] ++
      m.headers.flatMap RequestMessage.headerCallbacks) ++
        .headersComplete m.method.number :: (m.bodyCallbacks ++ [.messageComplete]) := by
    rw [RequestMessage.callbacks, RequestMessage.headCallbacks, List.append_assoc, List.append_assoc]
    rfl
  rw [hsplit] at hcallbacks
  obtain ⟨lines, rest, hcalls, hlines, hrest⟩ := List.map_eq_append_iff.1 hcallbacks
  obtain ⟨⟨cb, stop⟩, rest, rfl, hcb, -⟩ := List.map_eq_cons_iff.1 hrest
  obtain rfl : cb = .headersComplete m.method.number := hcb
  have hrefused : ∀ d : HttpDecoder, d.requestUrl = m.target →
      (d.call P (.headersComplete m.method.number)).2 ≠ 0 := by
    intro d hd
    rw [HttpDecoder.call, HttpDecoder.parseHeaderComplete, hd, hinfo]
    dsimp only
    rw [hpath]
    simp
  have hparsed : (HttpDecoder.calls P {} (P.execute P.init m.wire).callbacks).2.2 = some stop := by
    rw [hcalls, HttpDecoder.calls_append (hlines ▸ hquiet), hlines, hlast, HttpDecoder.calls,
      if_neg (hrefused _ rfl)]
  rw [HttpDecoder.parseRequest]
  generalize HttpDecoder.calls P {} (P.execute P.init m.wire).callbacks = x at hparsed
  obtain ⟨d, complete, stop'⟩ := x
  obtain rfl : stop' = some stop := hparsed
  rfl

/-- The URL of a request is what its text says. -/
theorem parseUrl_target (ht : t.WellFormed) (htext : t.text = m.target)
    (hlen : m.target.length < 2 ^ 16) :
    ∃ u, parseUrl m.target false = some u ∧ ∀ uf, u.shown m.target uf = t.part uf := by
  rw [← htext] at hlen ⊢
  obtain ⟨u, hshown, -, hparse⟩ := parseUrl_text ht.toShaped hlen
  exact ⟨_, (hparse _).2 ((readPort_eq_some_iff (hshown .port)).2 ⟨ht.port, rfl⟩), hshown⟩

/-- What is decoded of a request whose URL has a path. -/
theorem parseRequest_of_path {cs : List UInt8} (hm : m.WellFormed requestParser)
    (hfit : m.body.length + 10 ≤ ullongMax) (ht : t.WellFormed) (htext : t.text = m.target)
    (hlen : m.target.length < 2 ^ 16) (hpath : t.path = some cs) : ∃ d,
      HttpDecoder.parseRequest requestParser {} m.wire = ⟨d, m.wire.length % 2 ^ 32, true⟩ ∧
      d.methodValue = some m.method.number ∧ d.httpUrl = m.target ∧ d.httpPath = .bytes cs ∧
      d.httpQuery = .bytes ((UrlText.part? t.query).getD []) ∧ d.httpBody = m.body ∧
      d.headers = m.headers.map fun h => (h.1, h.2.dropWhile isBlank) := by
  have hreads := requestParser_reads m hfit
  obtain ⟨u, hu, hshows⟩ := parseUrl_target ht htext hlen
  have hinfo : requestParser.parseUrl m.target = some u.info := congrArg (Option.map Url.info) hu
  obtain ⟨f, hfield, hf⟩ := Option.map_eq_some_iff.1 ((hshows .path).trans hpath)
  obtain ⟨d, hparsed, hmethod, hurl, hbody, hheaders⟩ :=
    Codec.parseRequest_of_reads hreads hm hinfo hfield
  have hd : d = after requestParser {} m.callbacks := by
    rw [← decoder_of_reads hreads hm hinfo hfield, hparsed]
  obtain ⟨hpathView, hqueryView⟩ := views_after (m := m) hinfo hfield
  have hquery : (u.info.query.map fun f => (m.target.drop f.off).take f.len) =
      UrlText.part? t.query := hshows .query
  refine ⟨d, hparsed, hmethod, hurl, ?_, ?_, hbody, hheaders⟩
  · rw [hd, hpathView, hf]
  · rw [hd, hqueryView, hquery]

/-- **The decoder gets what was sent**, if the URL has a path. -/
theorem requestParser_decodes (m : RequestMessage) (t : UrlText) (hm : m.WellFormed requestParser)
    (hfit : m.body.length + 10 ≤ ullongMax) (ht : t.WellFormed) (htext : t.text = m.target)
    (hlen : m.target.length < 2 ^ 16) :
    (t.path = none → (HttpDecoder.parseRequest requestParser {} m.wire).whole = false) ∧
      ∀ path, t.path = some path → ∃ d,
        HttpDecoder.parseRequest requestParser {} m.wire = ⟨d, m.wire.length % 2 ^ 32, true⟩ ∧
        d.methodValue = some m.method.number ∧ d.httpUrl = m.target ∧ d.httpPath = .bytes path ∧
        d.httpQuery = .bytes ((UrlText.part? t.query).getD []) ∧ d.httpBody = m.body ∧
        d.headers = m.headers.map fun h => (h.1, h.2.dropWhile isBlank) := by
  constructor
  · intro hnone
    obtain ⟨u, hu, hshows⟩ := parseUrl_target ht htext hlen
    have hinfo : requestParser.parseUrl m.target = some u.info := congrArg (Option.map Url.info) hu
    have hpath : u.info.path = none := Option.map_eq_none_iff.1 ((hshows .path).trans hnone)
    exact refused_of_no_path (requestParser_reads m hfit) hm hinfo hpath
  · intro path hsome
    exact parseRequest_of_path hm hfit ht htext hlen hsome

/-- `POST /f?q` with a form. -/
def formRequest : RequestMessage where
  method := .httpPost
  target := ascii "/f?q"
  headers := [(ascii "Host", ascii " h"), (ascii "content-length", ascii "3"), (ascii "A", [])]
  body := ascii "a=1"

theorem formRequest_wellFormed : formRequest.WellFormed requestParser where
  method_ne := by decide
  target := by
    have hinfo : requestParser.parseUrl formRequest.target = some ⟨some ⟨0, 2⟩, some ⟨3, 1⟩⟩ := rfl
    rw [hinfo]
    simp
  names := by decide
  values := by decide
  noTransferEncoding := by decide
  contentLength := by decide
  contentLength_of_body _ := ⟨(ascii "content-length", ascii "3"), by decide, by decide⟩
  contentLength_unique := by decide
  head_le := by decide

/-- Its URL. -/
def formUrl : UrlText := ⟨none, some (ascii "/f"), some (ascii "q"), none⟩

theorem formUrl_wellFormed : formUrl.WellFormed where
  server := forall_mem_none
  path cs hcs := by
    cases hcs
    exact ⟨47, [102], rfl, .inl rfl, List.forall_mem_singleton.2 rfl⟩
  path_of_none _ := by simp [formUrl]
  query cs hcs := by
    cases hcs
    exact List.forall_mem_singleton.2 (rfl : isQueryChar 113 = true)
  fragment := forall_mem_none
  fragment_of_none _ h := by simp [formUrl] at h
  port := forall_mem_none

theorem requestParser_decodes_form : ∃ d,
    HttpDecoder.parseRequest requestParser {} formRequest.wire = ⟨d, 59, true⟩ ∧
      d.methodValue = some 3 ∧ d.httpUrl = ascii "/f?q" ∧ d.httpPath = .bytes (ascii "/f") ∧
      d.httpQuery = .bytes (ascii "q") ∧ d.httpBody = ascii "a=1" ∧
      d.headers = [(ascii "Host", ascii "h"), (ascii "content-length", ascii "3"), (ascii "A", [])] :=
  (requestParser_decodes formRequest formUrl formRequest_wellFormed (by decide)
    formUrl_wellFormed rfl (by decide)).2 _ rfl

end SNet.Http.Parser
