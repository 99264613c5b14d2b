import Mathlib.Algebra.Ring.Nat
import Mathlib.Data.List.Basic

/-!
# Decoding requests

`HttpDecoder` and its callbacks, over `http_parser` as a parameter: what one `http_parser_execute`
calls back, where it stops and whether it reports an error. `HttpParser.Documented` is what the
decoder relies on.
-/

namespace SNet.Http

/-- The callbacks of `http_parser_settings`, with what they read of the parser. -/
inductive Callback
  | messageBegin
  | url (piece : List UInt8)
  | headerField (piece : List UInt8)
  | headerValue (piece : List UInt8)
  | headersComplete (method : Nat)
  | body (piece : List UInt8)
  | chunkHeader (contentLength : Nat)
  | chunkComplete
  | messageComplete
  deriving DecidableEq, Repr

/-- A call of `http_parser_execute` whose callbacks return 0: each callback with what the call
returns if this one returns anything else, the number of bytes parsed, whether `http_errno` is
`HPE_OK`, and the parser. -/
structure Execution (σ : Type) where
  callbacks : List (Callback × Nat)
  nparsed : Nat
  ok : Bool
  parser : σ

/-- Offset and length of a field of a URL. -/
structure UrlField where
  off : Nat
  len : Nat
  deriving DecidableEq, Repr

/-- `http_parser_url`, as far as it is read. -/
structure HttpParserUrl where
  path : Option UrlField
  query : Option UrlField
  deriving DecidableEq, Repr

/-- The parser: `http_parser_init(HTTP_REQUEST)`, `http_parser_execute` for `len > 0`, and
`http_parser_parse_url`, which fails with `none`. -/
structure HttpParser where
  Parser : Type
  init : Parser
  execute : Parser → List UInt8 → Execution Parser
  parseUrl : List UInt8 → Option HttpParserUrl

/-- The documented behaviour of `http_parser_execute`. It returns the number of bytes parsed, which
for input without an error is not 0; it is resumable: more input does not undo what was parsed, and
changes nothing where not even the first byte was. The head of a request does not end at its first
byte, and a call that `on_headers_complete` stops returns what was parsed up to there. -/
structure HttpParser.Documented (P : HttpParser) : Prop where
  nparsed_le : ∀ p data, data ≠ [] → (P.execute p data).nparsed ≤ data.length
  nparsed_pos : ∀ p data, data ≠ [] → (P.execute p data).ok = true → 0 < (P.execute p data).nparsed
  resume : ∀ p data more, data ≠ [] →
    (P.execute p data).nparsed ≤ (P.execute p (data ++ more)).nparsed
  resume_error : ∀ p data more, data ≠ [] → (P.execute p data).ok = false →
    (P.execute p data).nparsed = 0 → (P.execute p (data ++ more)).nparsed = 0
  head_ends : ∀ data m stop, (.headersComplete m, stop) ∈ (P.execute P.init data).callbacks →
    1 < data.length ∧ 0 < stop ∧ stop ≤ (P.execute P.init data).nparsed
  message_ends : ∀ data stop, (.messageComplete, stop) ∈ (P.execute P.init data).callbacks →
    1 < data.length

/-- A `std::string_view` into a string that an assignment may replace. -/
inductive View
  | bytes (bs : List UInt8)
  | dangling
  deriving DecidableEq, Repr

/-- The string behind the view is replaced; an empty view points nowhere. -/
def View.invalidate : View → View
  | .bytes [] => .bytes []
  | _ => .dangling

/-- The bytes that the view shows; `stale` is what is found where its string was. -/
def View.read (stale : List UInt8) : View → List UInt8
  | .bytes bs => bs
  | .dangling => stale

/-- `HttpDecoder<HttpRequest>`, with the fields of the message that its callbacks set. -/
structure HttpDecoder where
  requestUrl : List UInt8 := []
  httpBody : List UInt8 := []
  httpPath : View := .bytes []
  httpQuery : View := .bytes []
  headers : List (List UInt8 × List UInt8) := []
  parseHeader : List UInt8 × List UInt8 := ([], [])
  httpUrl : List UInt8 := []
  methodValue : Option Nat := none
  deriving DecidableEq, Repr

namespace HttpDecoder

variable (P : HttpParser) (d : HttpDecoder)

def parseUrl (piece : List UInt8) : HttpDecoder × Int :=
  ({ d with
      requestUrl := piece
      httpPath := d.httpPath.invalidate
      httpQuery := d.httpQuery.invalidate
      httpUrl := piece }, 0)

def parseField (piece : List UInt8) : HttpDecoder × Int :=
  ({ d with parseHeader := (piece, d.parseHeader.2) }, 0)

def parseValue (piece : List UInt8) : HttpDecoder × Int :=
  let header := (d.parseHeader.1, piece)
  ({ d with parseHeader := header, headers := d.headers ++ [header] }, 0)

def parseBody (piece : List UInt8) : HttpDecoder × Int :=
  ({ d with httpBody := piece }, 0)

/-- The bytes of a field of `request_url`. -/
def field (f : UrlField) : View := .bytes ((d.requestUrl.drop f.off).take f.len)

/-- `parse_header_complete`: a URL that cannot be parsed is no error, one without a path is. -/
def parseHeaderComplete (method : Nat) : HttpDecoder × Int :=
  match P.parseUrl d.requestUrl with
  | none => (d, 0)
  | some urlInfo =>
    match urlInfo.path with
    | none => (d, -1)
    | some path =>
      let d' := { d with httpPath := d.field path }
      let d'' := match urlInfo.query with
        | none => d'
        | some query => { d' with httpQuery := d.field query }
      ({ d'' with methodValue := some method }, 0)

def call : Callback → HttpDecoder × Int
  | .url piece => d.parseUrl piece
  | .headerField piece => d.parseField piece
  | .headerValue piece => d.parseValue piece
  | .headersComplete method => d.parseHeaderComplete P method
  | .body piece => d.parseBody piece
  | .messageBegin | .chunkHeader _ | .chunkComplete | .messageComplete => (d, 0)

/-- The callbacks up to the first that does not return 0, and what `http_parser_execute` returns
then; the flag tells whether any message was completed. -/
def calls : HttpDecoder → List (Callback × Nat) → HttpDecoder × Bool × Option Nat
  | d, [] => (d, false, none)
  | d, (cb, stop) :: cbs =>
    let r := d.call P cb
    if r.2 = 0 then
      let r' := calls r.1 cbs
      (r'.1, (cb = .messageComplete || r'.2.1), r'.2.2)
    else (r.1, false, some stop)

/-- The last callback is `on_message_complete`: behind it no other message was begun. -/
def endsComplete (cbs : List (Callback × Nat)) : Bool :=
  cbs.getLast?.any fun q => q.1 = .messageComplete

/-- `get_header`: the value of the first header with this name, or nothing. -/
def getHeader (key : List UInt8) : List UInt8 :=
  ((d.headers.find? fun h => h.1 = key).map (·.2)).getD []

/-- What comes of `parse_request`: its result, and whether the parser reported no error and completed
the message that it came to last, which is what the decoder is left with. -/
structure Parsed where
  decoder : HttpDecoder
  msgLen : Nat
  whole : Bool
  deriving DecidableEq, Repr

/-- `parse_request`, on a decoder that starts with `init_parser`. The result is a `uint32_t`, and so
is the parameter `len`: a text has less than 2^32 bytes. -/
def parseRequest (data : List UInt8) : Parsed :=
  let e := P.execute P.init data
  match calls P d e.callbacks with
  | (d', _, none) => ⟨d', e.nparsed % 2 ^ 32, endsComplete e.callbacks && e.ok⟩
  | (d', _, some stop) => ⟨d', stop % 2 ^ 32, false⟩

/-- In `data` a message is reported complete, by a parser that no callback stops and that reports no
error. Another one may be begun behind it. -/
def completes (data : List UInt8) : Bool :=
  let e := P.execute P.init data
  let r := calls P d e.callbacks
  r.2.1 && r.2.2.isNone && e.ok

end HttpDecoder

end SNet.Http
