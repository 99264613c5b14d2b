import SNet.Http.Decoder
import SNet.Http.Encoder

/-!
# Encoding and parsing responses

`HttpResponse` on both sides of a connection. The status line is the text of a table with a default,
and `body()` returns the field that the encoder writes from, which no callback of the decoder sets:
`response_roundTrips_iff` says which responses come out of `parse` as they went into `dump`.
-/

namespace SNet.Http.Codec

/-! ## The parser -/

/-- The callbacks of a response; `on_status` with `parser->status_code`. -/
inductive ResponseCallback
  | status (code : Nat) (piece : List UInt8)
  | other (cb : Callback)
  deriving DecidableEq, Repr

/-- The status code that a callback reports. -/
def ResponseCallback.code? : ResponseCallback → Option Nat
  | .status code _ => some code
  | .other _ => none

/-- `http_parser_init(HTTP_RESPONSE)` and one `http_parser_execute` whose callbacks return 0: the
callbacks and the number of bytes parsed. -/
structure ResponseParser where
  execute : List UInt8 → List ResponseCallback × Nat

/-- A code in three digits. -/
def codeDigits (code : Nat) : List UInt8 :=
  [.ofNat (48 + code / 100), .ofNat (48 + code / 10 % 10), .ofNat (48 + code % 10)]

/-- A status line without its end of line. -/
def statusLine (code : Nat) (reason : List UInt8) : List UInt8 :=
  ascii "HTTP/1.0 " ++ codeDigits code ++ ascii " " ++ reason

/-- The head of a response: the status line, further lines and an empty one. -/
def responseHead (code : Nat) (reason : List UInt8) (lines : List (List UInt8)) : List UInt8 :=
  statusLine code reason ++ crlf ++ lines.flatMap (· ++ crlf) ++ crlf

/-- A status line that the parser takes for one. -/
structure IsStatusLine (code : Nat) (reason : List UInt8) : Prop where
  code_le : code ≤ 999
  reason_ne : reason ≠ []
  noEol : NoEol reason
  length_lt : (statusLine code reason).length < 80 * 1024

instance decidableIsStatusLine (code : Nat) (reason : List UInt8) :
    Decidable (IsStatusLine code reason) :=
  decidable_of_iff (code ≤ 999 ∧ reason ≠ [] ∧ NoEol reason ∧
      (statusLine code reason).length < 80 * 1024)
    ⟨fun h => ⟨h.1, h.2.1, h.2.2.1, h.2.2.2⟩,
      fun h => ⟨h.code_le, h.reason_ne, h.noEol, h.length_lt⟩⟩

/-- What the decoder relies on: of a response that ends with its head the parser reports the status
code, once. -/
structure ResponseParser.Documented (P : ResponseParser) : Prop where
  status : ∀ code reason lines, IsStatusLine code reason → (∀ l ∈ lines, l ≠ [] ∧ NoEol l) →
    (P.execute (responseHead code reason lines)).1.filterMap ResponseCallback.code? = [code]

/-! ## Responses -/

/-- `HttpResponse`, with the fields of `HttpDecoder<HttpResponse>`; those that only the callbacks of
a request set stay as they are. -/
structure HttpResponse where
  statusCode : UInt32 := 0
  length : UInt32 := 0
  message : Encodable := {}
  httpStatus : List UInt8 := []
  decoder : HttpDecoder := {}

namespace HttpResponse

variable (r : HttpResponse)

/-- `HttpResponse(c, rsp, type)`. -/
def ofCode (c : UInt32) (rsp type : List UInt8) : HttpResponse :=
  { statusCode := c, message := ({} : Encodable).setContent rsp type }

/-- Several calls of `add_header`. -/
def addHeaders (hs : List (List UInt8 × List UInt8)) : HttpResponse :=
  { r with message := r.message.addHeaders hs }

def code : UInt32 := r.statusCode

def body : List UInt8 := r.message.content

/-- `dump()`, at a time that is printed as `date`. -/
def dump (date : List UInt8) : List UInt8 :=
  statusString r.statusCode ++ crlf ++ r.message.httpHeaders.written.flatMap headerLine ++
    (ascii "Server: SNet Http Server v0.1" ++ crlf) ++ (ascii "Date: " ++ date ++ crlf) ++
    crlf ++ r.message.content

def parseStatus (code : Nat) (piece : List UInt8) : HttpResponse :=
  { r with httpStatus := piece, statusCode := .ofNat code }

def call : ResponseCallback → HttpResponse
  | .status code piece => r.parseStatus code piece
  | .other (.headerField piece) => { r with decoder := (r.decoder.parseField piece).1 }
  | .other (.headerValue piece) => { r with decoder := (r.decoder.parseValue piece).1 }
  | .other (.body piece) => { r with decoder := (r.decoder.parseBody piece).1 }
  | .other _ => r

/-- `parse`; no callback of a response stops the parser. Its parameter `len` is a `uint32_t`: a text
has less than 2^32 bytes. -/
def parse (P : ResponseParser) (data : List UInt8) : HttpResponse :=
  let e := P.execute data
  { e.1.foldl call r with length := .ofNat e.2 }

end HttpResponse

/-! ## What parsing keeps and sets -/

variable {P : ResponseParser} {r : HttpResponse} {cbs : List ResponseCallback}
  {data date content type reason : List UInt8} {hs : List (List UInt8 × List UInt8)} {c : UInt32}
  {lines : List (List UInt8)} {n : Nat}

@[simp] theorem body_call {cb : ResponseCallback} : (r.call cb).body = r.body := by
  cases cb with
  | status code piece => rfl
  | other cb => cases cb <;> rfl

theorem body_calls : (cbs.foldl HttpResponse.call r).body = r.body := by
  induction cbs generalizing r with
  | nil => rfl
  | cons cb cbs ih => rw [List.foldl_cons, ih, body_call]

/-- No callback sets what `body()` returns. -/
theorem body_parse : (r.parse P data).body = r.body := body_calls

/-- The code after the callbacks is the last one that was reported. -/
theorem statusCode_calls : (cbs.foldl HttpResponse.call r).statusCode =
    ((cbs.filterMap ResponseCallback.code?).map UInt32.ofNat).getLast?.getD r.statusCode := by
  induction cbs generalizing r with
  | nil => rfl
  | cons cb cbs ih =>
    rw [List.foldl_cons, ih]
    cases cb with
    | status code piece =>
      rw [List.filterMap_cons_some (f := ResponseCallback.code?) rfl, List.map_cons,
        List.getLast?_cons]
      rfl
    | other cb =>
      rw [List.filterMap_cons_none rfl]
      cases cb <;> rfl

/-- The code of a status line is the code of the response. -/
theorem code_parse (hP : P.Documented) (h : IsStatusLine n reason)
    (hlines : ∀ l ∈ lines, l ≠ [] ∧ NoEol l) :
    (r.parse P (responseHead n reason lines)).code = .ofNat n := by
  have hcalls := @statusCode_calls r (P.execute (responseHead n reason lines)).1
  rw [hP.status n reason lines h hlines] at hcalls
  exact hcalls

/-! ## The table -/

/-- The status codes from 200 on that the table has. -/
def statusCodes : List UInt32 :=
  [200, 201, 202, 204, 300, 301, 302, 304, 400, 401, 403, 404, 500, 501, 502, 503]

/-- The code that is printed for `code`. -/
def printedCode (code : UInt32) : UInt32 := if code ∈ statusCodes then code else 400

/-- The reason phrase that is printed for `code`. -/
def reasonPhrase (code : UInt32) : List UInt8 := (statusString code).drop 13

theorem printedCode_eq_iff : printedCode c = c ↔ c ∈ statusCodes := by
  rw [printedCode]
  split
  · next h => exact iff_of_true rfl h
  · next h =>
    refine iff_of_false ?_ h
    rintro rfl
    exact h (by decide)

/-- The codes that have a status line of their own. -/
def Listed (code : UInt32) : Prop := code = 101 ∨ code ∈ statusCodes

instance decidableListed (code : UInt32) : Decidable (Listed code) :=
  inferInstanceAs (Decidable (_ ∨ _))

theorem statusString_of_not_listed (h : ¬ Listed c) :
    statusString c = ascii "HTTP/1.0 400 Bad Request" := by
  have hne : ∀ n ∈ 101 :: statusCodes, c.toNat ≠ n.toNat := by
    intro n hn heq
    rw [← UInt32.toNat_inj.1 heq] at hn
    exact h (List.mem_cons.1 hn)
  simp only [statusCodes, List.forall_mem_cons] at hne
  rw [statusString]
  split <;> simp_all

/-- What holds of the texts of the table holds of every status line. -/
theorem forall_statusString {p : List UInt8 → Prop} [DecidablePred p]
    (h : (101 :: statusCodes).all fun code => decide (p (statusString code))) :
    p (statusString c) := by
  have htable : ∀ code ∈ 101 :: statusCodes, p (statusString code) :=
    fun code hcode => of_decide_eq_true (List.all_eq_true.1 h code hcode)
  by_cases hlisted : Listed c
  · exact htable c (List.mem_cons.2 hlisted)
  · rw [statusString_of_not_listed hlisted]
    exact htable 400 (by decide)

theorem statusString_of_not_mem (h : c ∉ statusCodes) (hlow : 200 ≤ c.toNat) :
    statusString c = ascii "HTTP/1.0 400 Bad Request" := by
  refine statusString_of_not_listed fun hlisted => ?_
  rcases hlisted with rfl | hmem
  · exact absurd hlow (by decide)
  · exact h hmem

/-- Every text of the table is a status line. -/
theorem statusString_eq (hlow : 200 ≤ c.toNat) :
    IsStatusLine (printedCode c).toNat (reasonPhrase c) ∧
      statusString c = statusLine (printedCode c).toNat (reasonPhrase c) := by
  have htable : statusCodes.all fun code => decide (IsStatusLine code.toNat (reasonPhrase code) ∧
      statusString code = statusLine code.toNat (reasonPhrase code)) := by decide +kernel
  rw [printedCode]
  split
  · next h => exact of_decide_eq_true (List.all_eq_true.1 htable c h)
  · next h =>
    rw [reasonPhrase, statusString_of_not_mem h hlow]
    decide

/-! ## The round trip -/

/-- The response that is built. -/
def builtResponse (c : UInt32) (content type : List UInt8) (hs : List (List UInt8 × List UInt8)) :
    HttpResponse :=
  (HttpResponse.ofCode c content type).addHeaders hs

/-- What `parse` makes of `dump()` has the code and the body that the response was built from. -/
structure ResponseRoundTrips (P : ResponseParser) (date : List UInt8) (c : UInt32)
    (content type : List UInt8) (hs : List (List UInt8 × List UInt8)) : Prop where
  code : (({} : HttpResponse).parse P ((builtResponse c content type hs).dump date)).code = c
  body : (({} : HttpResponse).parse P ((builtResponse c content type hs).dump date)).body = content

/-- The lines that stand behind the status line. -/
def HttpResponse.headerLines (r : HttpResponse) (date : List UInt8) : List (List UInt8) :=
  r.message.httpHeaders.written.map (fun h => h.1 ++ ascii ": " ++ h.2) ++
    [ascii "Server: SNet Http Server v0.1", ascii "Date: " ++ date]

/-- Without a body a response is its head. -/
theorem dump_eq (hlow : 200 ≤ r.statusCode.toNat) (hbody : r.body = []) : r.dump date =
    responseHead (printedCode r.statusCode).toNat (reasonPhrase r.statusCode) (r.headerLines date) := by
  have hcontent : r.message.content = [] := hbody
  have hline : headerLine = fun h => h.1 ++ ascii ": " ++ h.2 ++ crlf := rfl
  rw [HttpResponse.dump, (statusString_eq hlow).2, responseHead, HttpResponse.headerLines, hcontent,
    hline, List.flatMap_append, List.flatMap_map]
  simp only [List.flatMap_cons, List.flatMap_nil, List.append_assoc, List.append_nil]

/-- Headers without an end of line are lines. -/
theorem isLine_of_mem_headerLines (hdate : NoEol date)
    (hhs : ∀ h ∈ r.message.httpHeaders.written, NoEol h.1 ∧ NoEol h.2) :
    ∀ l ∈ r.headerLines date, l ≠ [] ∧ NoEol l := by
  intro l hl
  rw [HttpResponse.headerLines, List.mem_append, List.mem_map] at hl
  rcases hl with ⟨h, hmem, rfl⟩ | hl
  · refine ⟨by simp [ascii], ?_⟩
    exact ((hhs h hmem).1.append (by decide)).append (hhs h hmem).2
  · rw [List.mem_pair] at hl
    rcases hl with rfl | rfl
    · decide
    · exact ⟨by simp [ascii], NoEol.append (by decide) hdate⟩

/-- **The code** of a response without a body is parsed as it was printed. -/
theorem code_parse_built (hP : P.Documented) (hdate : NoEol date)
    (hhs : ∀ h ∈ hs, NoEol h.1 ∧ NoEol h.2) (hlow : 200 ≤ c.toNat) :
    (r.parse P ((builtResponse c [] type hs).dump date)).code = printedCode c := by
  have hsent : (builtResponse c [] type hs).body = [] := Encodable.content_addHeaders
  have hcode : (builtResponse c [] type hs).statusCode = c := rfl
  have hwritten : ∀ h ∈ (builtResponse c [] type hs).message.httpHeaders.written,
      NoEol h.1 ∧ NoEol h.2 := by
    rintro ⟨key, value⟩ hmem
    rcases Encodable.getElem?_addHeaders (Headers.mem_written.1 hmem).1 with hold | hnew
    · simp [HttpResponse.ofCode, Encodable.setContent] at hold
    · exact hhs _ hnew
  rw [dump_eq hlow hsent, hcode, code_parse hP (statusString_eq hlow).1
    (isLine_of_mem_headerLines hdate hwritten), UInt32.ofNat_toNat]

/-- A parser that reads the code where it stands and calls back `script` behind the status line. -/
def scriptedResponseParser (reason : List UInt8) (script : List Callback) : ResponseParser where
  execute data :=
    let digits := ((data.drop 9).take 3).map (·.toNat - 48)
    (.other .messageBegin :: .status (digits.foldl (fun n d => 10 * n + d) 0) reason ::
      script.map .other, data.length)

theorem scriptedResponseParser_documented {script : List Callback} :
    (scriptedResponseParser reason script).Documented := by
  refine ⟨fun code reason' lines h _ => ?_⟩
  have hcode := h.code_le
  have hscript : (script.map ResponseCallback.other).filterMap ResponseCallback.code? = [] := by
    simp [List.filterMap_map, ResponseCallback.code?]
  have hdigits : ((responseHead code reason' lines).drop 9).take 3 = codeDigits code := rfl
  simp only [scriptedResponseParser, hdigits]
  rw [List.filterMap_cons_none rfl,
    List.filterMap_cons_some (f := ResponseCallback.code?) rfl, hscript]
  simp [codeDigits]
  omega

/-- A date. -/
def epoch : List UInt8 := ascii "Thu, 01 Jan 1970 00:00:00 UTC"

/-- The callbacks for the headers that every response has. -/
def ownHeaders : List Callback :=
  [.headerField (ascii "Server"), .headerValue (ascii "SNet Http Server v0.1"),
    .headerField (ascii "Date"), .headerValue epoch, .headersComplete 0]

/-- **A response round-trips** exactly if its code is in the table and it has no body. -/
theorem response_roundTrips_iff (hP : P.Documented) (hdate : NoEol date)
    (hhs : ∀ h ∈ hs, NoEol h.1 ∧ NoEol h.2) (hlow : 200 ≤ c.toNat) :
    ResponseRoundTrips P date c content type hs ↔ c ∈ statusCodes ∧ content = [] := by
  constructor
  · intro h
    have hnil : content = [] := by
      rw [← h.body, body_parse]
      rfl
    rw [hnil] at h
    exact ⟨printedCode_eq_iff.1 ((code_parse_built hP hdate hhs hlow).symm.trans h.code), hnil⟩
  · rintro ⟨hmem, rfl⟩
    refine ⟨?_, body_parse⟩
    rw [code_parse_built hP hdate hhs hlow, printedCode_eq_iff.2 hmem]

/-- A response that says that something was not found. -/
theorem response_roundTrips_notFound :
    ResponseRoundTrips
      (scriptedResponseParser (ascii "Not Found")
        ([.headerField (ascii "X-Trace"), .headerValue (ascii "7")] ++ ownHeaders))
      epoch 404 [] (ascii "txt") [(ascii "X-Trace", ascii "7")] :=
  (response_roundTrips_iff scriptedResponseParser_documented (by decide) (by decide)
    (by decide)).2 ⟨by decide, rfl⟩

/-- A response with a body of one byte. -/
theorem response_body_lost : ¬ ∀ (P : ResponseParser) (date : List UInt8) (c : UInt32)
    (content type : List UInt8) (hs : List (List UInt8 × List UInt8)), P.Documented →
    NoEol date → 200 ≤ c.toNat → c.toNat ≤ 599 → (c = 204 ∨ c = 304 → content = []) →
    (∀ h ∈ hs, NoEol h.1 ∧ NoEol h.2) → ResponseRoundTrips P date c content type hs := by
  intro h
  have hround := h (scriptedResponseParser (ascii "OK")
    ([.headerField (ascii "Content-Length"), .headerValue (ascii "1")] ++ ownHeaders ++
      [.body [97], .messageComplete])) epoch 200 [97] (ascii "txt") []
    scriptedResponseParser_documented (by decide) (by decide) (by decide) (by decide)
    (List.forall_mem_nil _)
  have hbody := hround.body
  rw [body_parse] at hbody
  exact absurd hbody (by decide)

end SNet.Http.Codec
