import SNet.Http.Decoder
import SNet.Http.Encoder

/-!
# Requests

`HttpRequest` as it is built and encoded, requests as `http_parser` reads them, and what the decoder
relies on for one of them.
-/

namespace SNet.Http

/-! ## Building and encoding -/

/-- `HttpRequest`, with the fields that the encoder uses. -/
structure Codec.HttpRequest where
  httpMethod : HttpMethod
  httpUrl : List UInt8
  message : Encodable := {}

namespace Codec.HttpRequest

/-- `HttpRequest(method, url, content, type)`. -/
def ofMethod (method : HttpMethod) (url content type : List UInt8) : Codec.HttpRequest :=
  { httpMethod := method, httpUrl := url, message := ({} : Encodable).setContent content type }

/-- Several calls of `add_header`. -/
def addHeaders (r : Codec.HttpRequest) (hs : List (List UInt8 × List UInt8)) : Codec.HttpRequest :=
  { r with message := r.message.addHeaders hs }

def encode (r : Codec.HttpRequest) : List UInt8 :=
  httpMethodString r.httpMethod ++ ascii " " ++ r.httpUrl ++ ascii " " ++ ascii "HTTP/1.1" ++ crlf ++
    r.message.httpHeaders.written.flatMap headerLine ++ crlf ++ r.message.content

end Codec.HttpRequest

/-! ## Requests on the wire -/

/-- The name of a method in a request. -/
def HttpMethod.name : HttpMethod → List UInt8
  | .httpPatch => ascii "PATCH"
  | m => httpMethodString m

/-- The number of a method in `enum http_method`. -/
def HttpMethod.number : HttpMethod → Nat
  | .httpDelete => 0
  | .httpGet => 1
  | .httpHead => 2
  | .httpPost => 3
  | .httpPut => 4
  | .httpConnect => 5
  | .httpOptions => 6
  | .httpTrace => 7
  | .httpPatch => 28

/-- A character of a token. -/
def IsTokenChar (b : UInt8) : Prop :=
  48 ≤ b ∧ b ≤ 57 ∨ 65 ≤ b ∧ b ≤ 90 ∨ 97 ≤ b ∧ b ≤ 122 ∨ b ∈ ascii "!#$%&'*+-.^_`|~"

instance decidableIsTokenChar (b : UInt8) : Decidable (IsTokenChar b) :=
  inferInstanceAs (Decidable (_ ∨ _))

def IsToken (bs : List UInt8) : Prop := bs ≠ [] ∧ ∀ b ∈ bs, IsTokenChar b

instance decidableIsToken (bs : List UInt8) : Decidable (IsToken bs) :=
  have := List.decidableBAll IsTokenChar bs
  inferInstanceAs (Decidable (_ ∧ _))

/-- What a header may say: no control characters but tabs. -/
def IsHeaderValue (bs : List UInt8) : Prop := ∀ b ∈ bs, b = 9 ∨ 32 ≤ b ∧ b ≠ 127

instance decidableIsHeaderValue (bs : List UInt8) : Decidable (IsHeaderValue bs) :=
  List.decidableBAll _ bs

def lower (bs : List UInt8) : List UInt8 := bs.map fun b => if 65 ≤ b ∧ b ≤ 90 then b + 32 else b

/-- `Content-Length`, in letters of either case. -/
def IsContentLength (name : List UInt8) : Prop := lower name = ascii "content-length"

instance decidableIsContentLength (name : List UInt8) : Decidable (IsContentLength name) :=
  inferInstanceAs (Decidable (_ = _))

def IsTransferEncoding (name : List UInt8) : Prop := lower name = ascii "transfer-encoding"

instance decidableIsTransferEncoding (name : List UInt8) : Decidable (IsTransferEncoding name) :=
  inferInstanceAs (Decidable (_ = _))

/-- A request in its parts. -/
structure RequestMessage where
  method : HttpMethod
  target : List UInt8
  headers : List (List UInt8 × List UInt8)
  body : List UInt8

def isBlank (b : UInt8) : Bool := b = 32 || b = 9

namespace RequestMessage

variable (m : RequestMessage)

def head : List UInt8 :=
  m.method.name ++ ascii " " ++ m.target ++ ascii " HTTP/1.1" ++ crlf ++
    m.headers.flatMap headerLine ++ crlf

def wire : List UInt8 := m.head ++ m.body

/-- The calls for a header; the blanks in front of a value are not part of it. -/
def headerCallbacks (h : List UInt8 × List UInt8) : List Callback :=
  [.headerField h.1, .headerValue (h.2.dropWhile isBlank)]

def headCallbacks : List Callback :=
  [.messageBegin, .url m.target] ++ m.headers.flatMap headerCallbacks ++
    [.headersComplete m.method.number]

def bodyCallbacks : List Callback := if m.body = [] then [] else [.body m.body]

def callbacks : List Callback := m.headCallbacks ++ m.bodyCallbacks ++ [.messageComplete]

/-- A request that the parser takes: nothing in it is malformed, its head is not too long, and at
most one header says how long the body is. -/
structure WellFormed (P : HttpParser) : Prop where
  method_ne : m.method ≠ .httpConnect
  target : P.parseUrl m.target ≠ none
  names : ∀ h ∈ m.headers, IsToken h.1
  values : ∀ h ∈ m.headers, IsHeaderValue h.2
  noTransferEncoding : ∀ h ∈ m.headers, ¬ IsTransferEncoding h.1
  contentLength : ∀ h ∈ m.headers, IsContentLength h.1 → h.2 = ascii (toString m.body.length)
  contentLength_of_body : m.body ≠ [] → ∃ h ∈ m.headers, IsContentLength h.1
  contentLength_unique : m.headers.Pairwise fun h h' =>
    ¬ (IsContentLength h.1 ∧ IsContentLength h'.1)
  head_le : m.head.length ≤ 80 * 1024

end RequestMessage

/-- What the decoder relies on: the parser reads the request `m` as what it is. -/
def HttpParser.Reads (P : HttpParser) (m : RequestMessage) : Prop :=
  m.WellFormed P → ((P.execute P.init m.wire).callbacks.map (·.1) = m.callbacks ∧
    (P.execute P.init m.wire).nparsed = m.wire.length ∧ (P.execute P.init m.wire).ok = true)

/-! ## Calling back -/

namespace HttpDecoder

variable {P : HttpParser} {d : HttpDecoder} {cb : Callback} {cbs cbs' : List Callback}
  {hs : List (List UInt8 × List UInt8)}

/-- The decoder after callbacks, whatever they return. -/
def after (P : HttpParser) (d : HttpDecoder) (cbs : List Callback) : HttpDecoder :=
  cbs.foldl (fun d cb => (d.call P cb).1) d

/-- All the callbacks return 0. -/
def Quiet (P : HttpParser) : HttpDecoder → List Callback → Prop
  | _, [] => True
  | d, cb :: cbs => (d.call P cb).2 = 0 ∧ Quiet P (d.call P cb).1 cbs

theorem after_append : after P d (cbs ++ cbs') = after P (after P d cbs) cbs' :=
  List.foldl_append

theorem Quiet.append (h : Quiet P d cbs) (h' : Quiet P (after P d cbs) cbs') :
    Quiet P d (cbs ++ cbs') := by
  induction cbs generalizing d with
  | nil => exact h'
  | cons cb cbs ih => exact ⟨h.1, ih h.2 h'⟩

/-- Behind callbacks that return 0 the others are made. -/
theorem calls_append {cbs cbs' : List (Callback × Nat)} (h : Quiet P d (cbs.map (·.1))) :
    calls P d (cbs ++ cbs') =
      let r := calls P (after P d (cbs.map (·.1))) cbs'
      (r.1, decide (.messageComplete ∈ cbs.map (·.1)) || r.2.1, r.2.2) := by
  induction cbs generalizing d with
  | nil => simp [after]
  | cons q cbs ih =>
    obtain ⟨cb, stop⟩ := q
    have hcomplete : decide (.messageComplete ∈ ((cb, stop) :: cbs).map (·.1)) =
        (decide (cb = .messageComplete) || decide (.messageComplete ∈ cbs.map (·.1))) := by
      rw [← Bool.decide_or]
      exact decide_eq_decide.2 (List.mem_cons.trans (or_congr_left eq_comm))
    rw [List.cons_append, calls, if_pos h.1, ih h.2, hcomplete]
    simp only [Bool.or_assoc]
    rfl

/-- Callbacks that return 0 are all made. -/
theorem calls_of_quiet {cbs : List (Callback × Nat)} (h : Quiet P d (cbs.map (·.1))) :
    calls P d cbs =
      (after P d (cbs.map (·.1)), decide (.messageComplete ∈ cbs.map (·.1)), none) := by
  have hnil := @calls_append P d cbs [] h
  rw [List.append_nil] at hnil
  rw [hnil, calls]
  dsimp only
  rw [Bool.or_false]

/-- The calls for headers append them. -/
theorem after_headers : Quiet P d (hs.flatMap RequestMessage.headerCallbacks) ∧ ∃ last,
    after P d (hs.flatMap RequestMessage.headerCallbacks) =
      { d with
        headers := d.headers ++ hs.map fun h => (h.1, h.2.dropWhile isBlank)
        parseHeader := last } := by
  induction hs generalizing d with
  | nil => exact ⟨trivial, d.parseHeader, by simp [after]⟩
  | cons h hs ih =>
    rcases ih (d := after P d (RequestMessage.headerCallbacks h)) with ⟨hquiet, last, hlast⟩
    refine ⟨⟨rfl, rfl, hquiet⟩, last, ?_⟩
    rw [List.flatMap_cons, after_append, hlast]
    simp [after, RequestMessage.headerCallbacks, call, parseField, parseValue]

end HttpDecoder

end SNet.Http
