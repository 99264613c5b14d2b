import SNet.Http.Request

/-!
# Encoding and parsing requests

A request that is encoded and parsed is the same again (`request_roundTrips`), as far as the parser
takes it: its URL has a path, no header begins with a blank or has control characters, the head is
not too long and it asks for no tunnel. `request_not_recovered` shows a request for each of these.
-/

namespace SNet.Http.Codec

variable {P : HttpParser} {m : RequestMessage} {method : HttpMethod} {info : HttpParserUrl}
  {path : UrlField} {url content type key value : List UInt8} {e : Encodable}
  {hs hs₁ hs₂ l : List (List UInt8 × List UInt8)} {h : List UInt8 × List UInt8}

/-! ## Parsing a request of the wire -/

/-- A URL with a path ends the head without an error. -/
theorem parseHeaderComplete_of_path {d : HttpDecoder} {n : Nat}
    (hinfo : P.parseUrl d.requestUrl = some info) (hpath : info.path = some path) :
    ∃ d', d.parseHeaderComplete P n = (d', 0) ∧ d'.methodValue = some n ∧
      d'.httpUrl = d.httpUrl ∧ d'.httpBody = d.httpBody ∧ d'.headers = d.headers := by
  rw [HttpDecoder.parseHeaderComplete, hinfo]
  dsimp only
  rw [hpath]
  refine ⟨_, rfl, rfl, ?_⟩
  cases info.query with
  | none => exact ⟨rfl, rfl, rfl⟩
  | some query => exact ⟨rfl, rfl, rfl⟩

/-- The head of a request sets the URL, the headers and, if the URL has a path, the method. -/
theorem after_head (hinfo : P.parseUrl m.target = some info) (hpath : info.path = some path) :
    HttpDecoder.Quiet P {} m.headCallbacks ∧
      ∃ d, HttpDecoder.after P {} m.headCallbacks = d ∧ d.methodValue = some m.method.number ∧
        d.httpUrl = m.target ∧ d.httpBody = [] ∧
        d.headers = m.headers.map fun h => (h.1, h.2.dropWhile isBlank) := by
  let d₁ : HttpDecoder := HttpDecoder.after P {} [.messageBegin, .url m.target]
  rcases @HttpDecoder.after_headers P d₁ m.headers with ⟨hquiet, last, hlast⟩
  let d₂ := HttpDecoder.after P d₁ (m.headers.flatMap RequestMessage.headerCallbacks)
  have hurl : d₂.requestUrl = m.target := congrArg HttpDecoder.requestUrl hlast
  rcases parseHeaderComplete_of_path (d := d₂) (n := m.method.number) (by rwa [hurl]) hpath with
    ⟨d', hcall, hmethod, hhttpUrl, hbody, hheaders⟩
  have hafter : HttpDecoder.after P {} m.headCallbacks = (d₂.parseHeaderComplete P m.method.number).1
      := by
    rw [RequestMessage.headCallbacks, HttpDecoder.after_append, HttpDecoder.after_append]
    rfl
  refine ⟨?_, d', ?_, hmethod, ?_, ?_, ?_⟩
  · refine HttpDecoder.Quiet.append (HttpDecoder.Quiet.append ⟨rfl, rfl, trivial⟩ hquiet) ⟨?_, trivial⟩
    rw [HttpDecoder.after_append]
    exact congrArg (·.2) hcall
  · rw [hafter, hcall]
  · exact hhttpUrl.trans (congrArg HttpDecoder.httpUrl hlast)
  · exact hbody.trans (congrArg HttpDecoder.httpBody hlast)
  · exact hheaders.trans (congrArg HttpDecoder.headers hlast)

/-- The rest of a request sets the body. -/
theorem after_callbacks (hinfo : P.parseUrl m.target = some info) (hpath : info.path = some path) :
    HttpDecoder.Quiet P {} m.callbacks ∧
      ∃ d, HttpDecoder.after P {} m.callbacks = d ∧ d.methodValue = some m.method.number ∧
        d.httpUrl = m.target ∧ d.httpBody = m.body ∧
        d.headers = m.headers.map fun h => (h.1, h.2.dropWhile isBlank) := by
  rcases after_head hinfo hpath with ⟨hquiet, d, hd, hmethod, hurl, hbody, hheaders⟩
  rw [RequestMessage.callbacks, HttpDecoder.after_append, HttpDecoder.after_append, hd,
    RequestMessage.bodyCallbacks]
  by_cases hnil : m.body = []
  · rw [if_pos hnil, List.append_nil]
    refine ⟨hquiet.append ⟨rfl, trivial⟩, d, rfl, hmethod, hurl, ?_, hheaders⟩
    rw [hbody, hnil]
  · rw [if_neg hnil]
    have hbody' : HttpDecoder.Quiet P {} (m.headCallbacks ++ [.body m.body]) :=
      hquiet.append ⟨rfl, trivial⟩
    exact ⟨hbody'.append ⟨rfl, trivial⟩, _, rfl, hmethod, hurl, rfl, hheaders⟩

/-- **Parsing** a request that the parser reads and whose URL has a path. -/
theorem parseRequest_of_reads (hP : P.Reads m) (hm : m.WellFormed P)
    (hinfo : P.parseUrl m.target = some info) (hpath : info.path = some path) :
    ∃ d, HttpDecoder.parseRequest P {} m.wire = ⟨d, m.wire.length % 2 ^ 32, true⟩ ∧
      d.methodValue = some m.method.number ∧ d.httpUrl = m.target ∧ d.httpBody = m.body ∧
      d.headers = m.headers.map fun h => (h.1, h.2.dropWhile isBlank) := by
  rcases hP hm with ⟨hcallbacks, hnparsed, hok⟩
  rcases after_callbacks hinfo hpath with ⟨hquiet, d, hd, hfields⟩
  have hcalls := HttpDecoder.calls_of_quiet (hcallbacks ▸ hquiet)
  have hends : HttpDecoder.endsComplete (P.execute P.init m.wire).callbacks = true := by
    have hlast : m.callbacks.getLast? = some .messageComplete := List.getLast?_concat
    rw [← hcallbacks, List.getLast?_map] at hlast
    obtain ⟨q, hq, hcb⟩ := Option.map_eq_some_iff.1 hlast
    rw [HttpDecoder.endsComplete, hq, Option.any_some, hcb]
    rfl
  refine ⟨d, ?_, hfields⟩
  rw [HttpDecoder.parseRequest, hends, hcalls, hcallbacks, hd, hnparsed, hok]
  rfl

/-! ## What is sent -/

/-- The request that is built. -/
def builtRequest (method : HttpMethod) (url content type : List UInt8)
    (hs : List (List UInt8 × List UInt8)) : HttpRequest :=
  (HttpRequest.ofMethod method url content type).addHeaders hs

/-- The request that `encode` means. -/
def HttpRequest.sent (r : HttpRequest) : RequestMessage where
  method := r.httpMethod
  target := r.httpUrl
  headers := r.message.httpHeaders.written
  body := r.message.content

/-- What `encode` returns is the request on the wire, unless the method is `PATCH`. -/
theorem encode_eq {r : HttpRequest} (hpatch : r.httpMethod ≠ .httpPatch) :
    r.encode = r.sent.wire := by
  have hname : httpMethodString r.httpMethod = r.httpMethod.name := by
    cases hmethod : r.httpMethod with
    | httpPatch => exact absurd hmethod hpatch
    | _ => rfl
  have hversion : ascii " HTTP/1.1" = ascii " " ++ ascii "HTTP/1.1" := by decide
  rw [HttpRequest.encode, RequestMessage.wire, RequestMessage.head, hname, hversion]
  simp only [List.append_assoc]
  rfl

def NoLeadingBlank (bs : List UInt8) : Prop := ∀ b ∈ bs.head?, isBlank b = false

instance decidableNoLeadingBlank (bs : List UInt8) : Decidable (NoLeadingBlank bs) :=
  bs.head?.decidableForallMem

theorem dropWhile_isBlank {bs : List UInt8} (h : NoLeadingBlank bs) : bs.dropWhile isBlank = bs := by
  cases bs with
  | nil => rfl
  | cons b bs => rw [List.dropWhile_cons_of_neg (by simp [h b rfl])]

/-- A header that survives: its value is not shortened and says nothing about the body. -/
structure IsHeader (h : List UInt8 × List UInt8) : Prop where
  name : IsToken h.1
  value : IsHeaderValue h.2
  noBlank : NoLeadingBlank h.2
  noContentLength : ¬ IsContentLength h.1
  noTransferEncoding : ¬ IsTransferEncoding h.1

/-- A number is a value. -/
theorem isHeaderValue_toString {n : Nat} :
    IsHeaderValue (ascii (toString n)) ∧ NoLeadingBlank (ascii (toString n)) := by
  have hdigits : ∀ b ∈ ascii (toString n), 48 ≤ b.toNat ∧ b.toNat ≤ 57 := by
    intro b hb
    rw [ascii, Nat.toString_eq_repr, Nat.toList_repr, List.mem_map] at hb
    rcases hb with ⟨c, hc, rfl⟩
    have hdigit := Char.isDigit_iff_toNat.1 (Nat.isDigit_of_mem_toDigits (by decide) (by decide) hc)
    rw [UInt8.toNat_ofNat', Nat.mod_eq_of_lt (Nat.lt_of_le_of_lt hdigit.2 (by decide))]
    exact hdigit
  constructor
  · intro b hb
    have := hdigits b hb
    refine .inr ⟨UInt8.le_iff_toNat_le.2 (by simp; omega), ?_⟩
    rintro rfl
    exact absurd this.2 (by decide)
  · intro b hb
    have := hdigits b (List.mem_of_mem_head? hb)
    have h32 : b ≠ 32 := by
      rintro rfl
      exact absurd this.1 (by decide)
    have h9 : b ≠ 9 := by
      rintro rfl
      exact absurd this.1 (by decide)
    simp [isBlank, h32, h9]

/-- A header that is written was set, or is the one of the body. -/
theorem of_mem_sent (hhs : ∀ h ∈ hs, IsHeader h)
    (hmem : (key, value) ∈ (builtRequest method url content type hs).sent.headers) :
    IsHeader (key, value) ∨ content ≠ [] ∧ key = ascii "Content-Length" ∧
      value = ascii (toString content.length) := by
  rcases Encodable.getElem?_addHeaders (Headers.mem_written.1 hmem).1 with hold | hnew
  · exact .inr (Encodable.getElem?_setContent.1 hold)
  · exact .inl (hhs _ hnew)

/-- The body that is sent. -/
theorem sent_body : (builtRequest method url content type hs).sent.body = content := by
  have hcontent : (builtRequest method url content type hs).sent.body =
      (({} : Encodable).setContent content type).content := Encodable.content_addHeaders
  rw [hcontent, Encodable.setContent]
  split
  · next h => exact h.symm
  · rfl

/-- **What is sent is well formed.** -/
theorem wellFormed_sent (hmethod : method ≠ .httpConnect) (hurl : P.parseUrl url ≠ none)
    (hhs : ∀ h ∈ hs, IsHeader h)
    (hhead : (builtRequest method url content type hs).sent.head.length ≤ 80 * 1024) :
    (builtRequest method url content type hs).sent.WellFormed P where
  method_ne := hmethod
  target := hurl
  names := by
    rintro ⟨key, value⟩ hmem
    rcases of_mem_sent hhs hmem with hh | ⟨-, rfl, -⟩
    · exact hh.name
    · exact (by decide : IsToken (ascii "Content-Length"))
  values := by
    rintro ⟨key, value⟩ hmem
    rcases of_mem_sent hhs hmem with hh | ⟨-, -, rfl⟩
    · exact hh.value
    · exact isHeaderValue_toString.1
  noTransferEncoding := by
    rintro ⟨key, value⟩ hmem
    rcases of_mem_sent hhs hmem with hh | ⟨-, rfl, -⟩
    · exact hh.noTransferEncoding
    · exact (by decide : ¬ IsTransferEncoding (ascii "Content-Length"))
  contentLength := by
    rintro ⟨key, value⟩ hmem hlen
    rcases of_mem_sent hhs hmem with hh | ⟨-, -, rfl⟩
    · exact absurd hlen hh.noContentLength
    · rw [sent_body]
  contentLength_of_body := by
    rw [sent_body]
    intro hbody
    have hname : IsContentLength (ascii "Content-Length") := by decide
    have hnot : ascii "Content-Length" ∉ hs.map (·.1) := by
      intro hmem
      rcases List.mem_map.1 hmem with ⟨h, hh, heq⟩
      exact (hhs h hh).noContentLength (heq ▸ hname)
    refine ⟨(ascii "Content-Length", ascii (toString content.length)), ?_, hname⟩
    refine Headers.mem_written.2 ⟨?_, by decide⟩
    exact (Encodable.getElem?_addHeaders_of_notMem hnot).trans
      (Encodable.getElem?_setContent.2 ⟨hbody, rfl, rfl⟩)
  contentLength_unique := by
    refine List.Pairwise.imp_of_mem ?_ Headers.written_distinct
    rintro ⟨key, value⟩ ⟨key', value'⟩ hmem hmem' hne ⟨hlen, hlen'⟩
    rcases of_mem_sent hhs hmem with hh | ⟨-, rfl, -⟩
    · exact hh.noContentLength hlen
    · rcases of_mem_sent hhs hmem' with hh | ⟨-, rfl, -⟩
      · exact hh.noContentLength hlen'
      · exact hne rfl
  head_le := hhead

/-- A header in a list in which names stand once is found. -/
theorem find?_of_distinct (hl : l.Pairwise fun a b => a.1 ≠ b.1) (hmem : (key, value) ∈ l) :
    l.find? (fun h => h.1 = key) = some (key, value) := by
  induction l with
  | nil => cases hmem
  | cons h l ih =>
    rw [List.pairwise_cons] at hl
    rcases List.mem_cons.1 hmem with rfl | htail
    · rw [List.find?_cons_of_pos (by simp)]
    · rw [List.find?_cons_of_neg (by simpa using hl.1 _ htail)]
      exact ih hl.2 htail

/-! ## The round trip -/

/-- `parse`, by a new request, of the request that is built. -/
def reparsed (P : HttpParser) (method : HttpMethod) (url content type : List UInt8)
    (hs : List (List UInt8 × List UInt8)) : HttpDecoder.Parsed :=
  HttpDecoder.parseRequest P {} (builtRequest method url content type hs).encode

/-- What `parse` makes of `encode()` is what the request was built from: all bytes are read without
an error, and the method, the URL, the header that was set last for each name, and the content come
out again. -/
structure RequestRoundTrips (P : HttpParser) (method : HttpMethod) (url content type : List UInt8)
    (hs : List (List UInt8 × List UInt8)) : Prop where
  whole : (reparsed P method url content type hs).whole = true
  consumed : (builtRequest method url content type hs).encode.length < 2 ^ 32 →
    (reparsed P method url content type hs).msgLen =
      (builtRequest method url content type hs).encode.length
  sameMethod : (reparsed P method url content type hs).decoder.methodValue = some method.number
  sameUrl : (reparsed P method url content type hs).decoder.httpUrl = url
  headers : ∀ hs₁ key value hs₂, hs = hs₁ ++ (key, value) :: hs₂ → key ∉ hs₂.map (·.1) →
    (reparsed P method url content type hs).decoder.getHeader key = value
  sameBody : (reparsed P method url content type hs).decoder.httpBody = content

/-- What was set last for a name is found among the headers that are sent. -/
theorem find?_sent (hkey : key ∉ hs₂.map (·.1)) (hne : key ≠ []) :
    (builtRequest method url content type (hs₁ ++ (key, value) :: hs₂)).sent.headers.find?
      (fun h => h.1 = key) = some (key, value) :=
  find?_of_distinct Headers.written_distinct
    (Headers.mem_written.2 ⟨Encodable.getElem?_addHeaders_last hkey, hne⟩)

/-- **A request round-trips.** -/
theorem request_roundTrips (hP : P.Reads (builtRequest method url content type hs).sent)
    (hconnect : method ≠ .httpConnect) (hpatch : method ≠ .httpPatch)
    (hinfo : P.parseUrl url = some info) (hpath : info.path = some path)
    (hhs : ∀ h ∈ hs, IsHeader h)
    (hhead : (builtRequest method url content type hs).encode.length ≤
      80 * 1024 + content.length) :
    RequestRoundTrips P method url content type hs := by
  have hwire : (builtRequest method url content type hs).encode =
      (builtRequest method url content type hs).sent.wire := encode_eq hpatch
  have hlength : (builtRequest method url content type hs).sent.head.length ≤ 80 * 1024 := by
    rw [hwire, RequestMessage.wire, List.length_append, sent_body] at hhead
    omega
  have hsome : P.parseUrl url ≠ none := by
    rw [hinfo]
    exact Option.some_ne_none info
  rcases parseRequest_of_reads hP (wellFormed_sent hconnect hsome hhs hlength) hinfo hpath with
    ⟨d, hparsed, hmethod, hurl, hbody, hheaders⟩
  have hre : reparsed P method url content type hs =
      ⟨d, (builtRequest method url content type hs).encode.length % 2 ^ 32, true⟩ := by
    rw [reparsed, hwire, hparsed]
  constructor
  · rw [hre]
  · intro hlt
    rw [hre]
    exact Nat.mod_eq_of_lt hlt
  · rw [hre]
    exact hmethod
  · rw [hre]
    exact hurl
  · rintro hs₁ key value hs₂ rfl hkey
    have hset := hhs (key, value) (List.mem_append_right _ List.mem_cons_self)
    rw [hre, HttpDecoder.getHeader, hheaders, List.find?_map]
    simp only [Function.comp_def]
    rw [find?_sent hkey hset.name.1]
    exact dropWhile_isBlank hset.noBlank
  · rw [hre]
    exact hbody.trans sent_body

/-- A parser that calls back `script` for every input. -/
def scriptedRequestParser (script : List Callback) (info : Option HttpParserUrl)
    (stop nparsed : Nat) (ok : Bool) : HttpParser where
  Parser := Unit
  init := ()
  execute _ _ := ⟨script.map (·, stop), nparsed, ok, ()⟩
  parseUrl _ := info

/-- A form that is sent. -/
theorem request_roundTrips_post : RequestRoundTrips
    (scriptedRequestParser [.messageBegin, .url (ascii "/f"), .headerField (ascii "Content-Length"),
      .headerValue (ascii "3"), .headerField (ascii "Host"), .headerValue (ascii "h"),
      .headersComplete 3, .body (ascii "a=1"), .messageComplete] (some ⟨some ⟨0, 2⟩, none⟩) 47 51 true)
    .httpPost (ascii "/f") (ascii "a=1") (ascii "txt") [(ascii "Host", ascii "h")] := by
  refine request_roundTrips (fun _ => ⟨rfl, rfl, rfl⟩) (by decide) (by decide) rfl
    rfl ?_ (by decide)
  refine List.forall_mem_singleton.2 ⟨?_, ?_, ?_, ?_, ?_⟩ <;> decide

/-- Requests that are not recovered: a URL without a path is refused, the blanks in front of a header
and the method of a tunnel are lost, a control character and a head of more than 80 KiB are errors. -/
theorem request_not_recovered :
    (¬ RequestRoundTrips (scriptedRequestParser
      [.messageBegin, .url (ascii "http://h"), .headersComplete 1, .messageComplete]
      (some ⟨none, none⟩) 24 25 true) .httpGet (ascii "http://h") [] (ascii "txt") []) ∧
    (¬ RequestRoundTrips (scriptedRequestParser
      [.messageBegin, .url (ascii "/"), .headerField (ascii "A"), .headerValue (ascii "x"),
        .headersComplete 1, .messageComplete]
      (some ⟨some ⟨0, 1⟩, none⟩) 24 25 true) .httpGet (ascii "/") [] (ascii "txt")
        [(ascii "A", ascii " x")]) ∧
    (¬ RequestRoundTrips (scriptedRequestParser
      [.messageBegin, .url (ascii "h:80"), .headersComplete 5, .messageComplete] none 24 25 true)
      .httpConnect (ascii "h:80") [] (ascii "txt") []) ∧
    (¬ RequestRoundTrips (scriptedRequestParser
      [.messageBegin, .url (ascii "/"), .headerField (ascii "A")]
      (some ⟨some ⟨0, 1⟩, none⟩) 20 20 false) .httpGet (ascii "/") [] (ascii "txt")
        [(ascii "A", [97, 1])]) ∧
    ¬ RequestRoundTrips (scriptedRequestParser
      [.messageBegin, .url (ascii "/"), .headerField (ascii "A"),
        .headerValue (List.replicate 81920 97)]
      (some ⟨some ⟨0, 1⟩, none⟩) 81939 81939 false) .httpGet (ascii "/") [] (ascii "txt")
        [(ascii "A", List.replicate 81920 97)] := by
  refine ⟨fun h => ?_, fun h => ?_, fun h => ?_, fun h => ?_, fun h => ?_⟩
  · cases h.whole
  · exact absurd (h.headers [] _ _ [] rfl (List.not_mem_nil)) (by decide)
  · cases h.sameMethod
  · cases h.whole
  · cases h.whole

end SNet.Http.Codec
