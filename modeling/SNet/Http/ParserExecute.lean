import Mathlib.Logic.Function.Basic
import SNet.Http.ParserFields
import SNet.Http.ResponseCodec

/-!
# Executing the parser

`http_parser_execute`, in strict mode and with callbacks that return 0. One case of its `switch` is a
function here; `goto reexecute` calls the function of the next state. The loops of
`s_header_field` and `s_header_value` pass over many characters in one round, as the bodies do.
-/

namespace SNet.Http.Parser

open Codec (ResponseCallback)

/-! ## A run -/

/-- The strings that are handed out in pieces. -/
inductive Mark
  | headerField
  | headerValue
  | url
  | body
  | status
  deriving DecidableEq

/-- The callback of a piece. -/
def Mark.callback (h : Fields) (piece : List UInt8) : Mark → ResponseCallback
  | .headerField => .other (.headerField piece)
  | .headerValue => .other (.headerValue piece)
  | .url => .other (.url piece)
  | .body => .other (.body piece)
  | .status => .status h.statusCode piece

/-- What a round of the loop does besides changing the parser: `MARK`; `CALLBACK_DATA_`, of a piece
that ends at the pointer or, with `last`, behind it; and `CALLBACK_NOTIFY_`. With `advance` a call whose
callback does not return 0 ends behind this byte. -/
inductive Event
  | mark (m : Mark)
  | data (m : Mark) (last advance : Bool)
  | notify (cb : Callback) (advance : Bool)
  deriving DecidableEq

/-- A round: the parser, with `p_state` and `nread` in it, what was done, and whether an `assert`
failed or a string was read behind its end. -/
structure Round where
  fields : Fields
  events : List Event := []
  fault : Bool := false

/-- How a case of the `switch` ends: with `break`, `goto error`, or a `RETURN` behind this byte. -/
inductive Out
  | next (r : Round)
  | error (r : Round)
  | done (r : Round)

namespace Round

variable (r : Round)

/-- `UPDATE_STATE`. -/
def enter (s : State) : Round := { r with fields := { r.fields with state := s } }

def setFlags (f : Flags → Flags) : Round :=
  { r with fields := { r.fields with flags := f r.fields.flags } }

def setHeaderState (s : HeaderState) : Round :=
  { r with fields := { r.fields with headerState := s } }

def setIndex (n : Nat) : Round := { r with fields := { r.fields with index := n } }

def setContentLength (n : Nat) : Round := { r with fields := { r.fields with contentLength := n } }

def setNread (n : Nat) : Round := { r with fields := { r.fields with nread := n } }

def setMethod (m : Method) : Round := { r with fields := { r.fields with method := m } }

def setType (t : ParserType) : Round := { r with fields := { r.fields with type := t } }

def setVersion (major minor : Nat) : Round :=
  { r with fields := { r.fields with httpMajor := major, httpMinor := minor } }

def setStatusCode (n : Nat) : Round := { r with fields := { r.fields with statusCode := n } }

def setUpgrade (b : Bool) : Round := { r with fields := { r.fields with upgrade := b } }

/-- `assert`. -/
def check (b : Bool) : Round := { r with fault := r.fault || !b }

/-- `SET_ERRNO` and `goto error`. -/
def fail (e : Errno) : Out := .error { r with fields := { r.fields with httpErrno := e } }

def event (e : Event) : Round := { r with events := r.events ++ [e] }

/-- `MARK`. -/
def setMark (m : Mark) : Round := r.event (.mark m)

/-- `CALLBACK_NOTIFY`. -/
def notify (cb : Callback) : Round := r.event (.notify cb true)

/-- `CALLBACK_NOTIFY_NOADVANCE`. -/
def notifyNoadvance (cb : Callback) : Round := r.event (.notify cb false)

/-- `CALLBACK_DATA`. -/
def callData (m : Mark) : Round := r.event (.data m false true)

/-- `CALLBACK_DATA_NOADVANCE`. -/
def callDataNoadvance (m : Mark) : Round := r.event (.data m false false)

/-- `COUNT_HEADER_SIZE`, and what follows it. -/
def count (n : Nat) (rest : Round → Out) : Out :=
  let r := r.setNread ((r.fields.nread + n) % 2 ^ 32)
  if maxHeaderSize < r.fields.nread then r.fail .headerOverflow else rest r

variable (ch : UInt8)

/-- A case that takes one character only. -/
def expect (c : UInt8) (s : State) (e : Errno) : Out :=
  if ch ≠ c then r.fail e else .next (r.enter s)

/-- A digit of a version. -/
def expectDigit (set : Nat → Round) (s : State) : Out :=
  if !isNumber ch then r.fail .invalidVersion else .next ((set (ch - chr '0').toNat).enter s)

/-! ## The end of a message -/

/-- `s_message_done`. -/
def messageDone : Out :=
  let r := (r.enter r.fields.newMessage).notify .messageComplete
  if r.fields.upgrade then .done r else .next r

/-- `s_headers_done`. -/
def headersDone : Out :=
  if ch ≠ lf then r.fail .strict
  else
    let r := r.setNread 0
    let h := r.fields
    let hasBody := h.flags.chunked || (0 < h.contentLength && h.contentLength ≠ ullongMax)
    let complete := (r.enter h.newMessage).notify .messageComplete
    if h.upgrade && (h.method = .connect || h.flags.skipbody || !hasBody) then .done complete
    else if h.flags.skipbody then .next complete
    else if h.flags.chunked then .next (r.enter .chunkSizeStart)
    else if h.contentLength = 0 then .next complete
    else if h.contentLength ≠ ullongMax then .next (r.enter .bodyIdentity)
    else if !h.needsEof then .next complete
    else .next (r.enter .bodyIdentityEof)

/-- `s_headers_almost_done`. -/
def headersAlmostDone : Out :=
  if ch ≠ lf then r.fail .strict
  else if r.fields.flags.trailing then
    ((r.enter .messageDone).notifyNoadvance .chunkComplete).messageDone
  else if r.fields.flags.chunked && r.fields.flags.contentlength then
    r.fail .unexpectedContentLength
  else
    let r := r.enter .headersDone
    let upgrade :=
      if r.fields.flags.upgrade && r.fields.flags.connectionUpgrade then
        decide (r.fields.type = .request ∨ r.fields.statusCode = 101)
      else decide (r.fields.method = .connect)
    ((r.setUpgrade upgrade).notifyNoadvance (.headersComplete r.fields.method.number)).headersDone ch

/-! ## Header fields -/

/-- `s_header_field_start`. -/
def headerFieldStart : Out :=
  if ch = cr then .next (r.enter .headersAlmostDone)
  else if ch = lf then (r.enter .headersAlmostDone).headersAlmostDone ch
  else
    let c := token ch
    if c = 0 then r.fail .invalidHeaderToken
    else
      let s : HeaderState :=
        if c = chr 'c' then .c
        else if c = chr 'p' then .matchingProxyConnection
        else if c = chr 't' then .matchingTransferEncoding
        else if c = chr 'u' then .matchingUpgrade
        else .general
      .next ((((r.setMark .headerField).setIndex 0).enter .headerField).setHeaderState s)

/-- `s_header_value_start`. -/
def headerValueStart : Out :=
  let r := ((r.setMark .headerValue).enter .headerValue).setIndex 0
  let c := lower ch
  match r.fields.headerState with
  | .upgrade => .next ((r.setFlags fun f => { f with upgrade := true }).setHeaderState .general)
  | .transferEncoding =>
    .next (r.setHeaderState (if c = chr 'c' then .matchingTransferEncodingChunked else .general))
  | .contentLength =>
    if !isNumber ch then r.fail .invalidContentLength
    else if r.fields.flags.contentlength then r.fail .unexpectedContentLength
    else
      .next (((r.setFlags fun f => { f with contentlength := true }).setContentLength
        (ch - chr '0').toNat).setHeaderState .contentLengthNum)
  | .contentLengthWs => .next r
  | .connection =>
    .next (r.setHeaderState (
      if c = chr 'k' then .matchingConnectionKeepAlive
      else if c = chr 'c' then .matchingConnectionClose
      else if c = chr 'u' then .matchingConnectionUpgrade
      else .matchingConnectionToken))
  | .matchingConnectionTokenStart => .next r
  | _ => .next (r.setHeaderState .general)

/-- `s_header_value_discard_ws`. -/
def headerValueDiscardWs : Out :=
  if ch = chr ' ' ∨ ch = 9 then .next r
  else if ch = cr then .next (r.enter .headerValueDiscardWsAlmostDone)
  else if ch = lf then .next (r.enter .headerValueDiscardLws)
  else r.headerValueStart ch

/-- The flags that the value of a header sets at its end. -/
def finishHeader : Round :=
  match r.fields.headerState with
  | .connectionKeepAlive => r.setFlags fun f => { f with connectionKeepAlive := true }
  | .connectionClose => r.setFlags fun f => { f with connectionClose := true }
  | .transferEncodingChunked => r.setFlags fun f => { f with chunked := true }
  | .connectionUpgrade => r.setFlags fun f => { f with connectionUpgrade := true }
  | _ => r

/-- `s_header_value_lws`. -/
def headerValueLws : Out :=
  if ch = chr ' ' ∨ ch = 9 then
    let r := if r.fields.headerState = .contentLengthNum then r.setHeaderState .contentLengthWs else r
    (r.enter .headerValueStart).headerValueStart ch
  else (r.finishHeader.enter .headerFieldStart).headerFieldStart ch

/-- `s_header_almost_done`. -/
def headerAlmostDone : Out := r.expect ch lf .headerValueLws .lfExpected

/-- `s_header_value_discard_lws`. -/
def headerValueDiscardLws : Out :=
  if ch = chr ' ' ∨ ch = 9 then .next (r.enter .headerValueDiscardWs)
  else if r.fields.headerState = .contentLength then r.fail .invalidContentLength
  else
    (((r.finishHeader.setMark .headerValue).enter .headerFieldStart).callDataNoadvance .headerValue)
      |>.headerFieldStart ch

/-! ## The first line -/

/-- `s_start_req`. -/
def startReq : Out :=
  if ch = cr ∨ ch = lf then .next r
  else
    let r := (r.setFlags fun _ => {}).setContentLength ullongMax
    match Method.ofLetter ch with
    | none => if isAlpha ch then ((r.setMethod .delete).setIndex 1).fail .invalidMethod
      else r.fail .invalidMethod
    | some m => .next ((((r.setMethod m).setIndex 1).enter .reqMethod).notify .messageBegin)

/-- `s_start_req_or_res`. -/
def startReqOrRes : Out :=
  if ch = cr ∨ ch = lf then .next r
  else
    let r := (r.setFlags fun _ => {}).setContentLength ullongMax
    if ch = chr 'H' then .next ((r.enter .resOrRespH).notify .messageBegin)
    else ((r.setType .request).enter .startReq).startReq ch

/-- `s_res_or_resp_H`. -/
def resOrRespH : Out :=
  if ch = chr 'T' then .next ((r.setType .response).enter .resHT)
  else if ch ≠ chr 'E' then r.fail .invalidConstant
  else .next ((((r.setType .request).setMethod .head).setIndex 2).enter .reqMethod)

/-- `s_start_res`. -/
def startRes : Out :=
  if ch = cr ∨ ch = lf then .next r
  else
    let r := (r.setFlags fun _ => {}).setContentLength ullongMax
    if ch = chr 'H' then .next ((r.enter .resH).notify .messageBegin)
    else r.fail .invalidConstant

/-- `s_res_first_status_code`. -/
def resFirstStatusCode : Out :=
  if isNumber ch then .next ((r.setStatusCode (ch - chr '0').toNat).enter .resStatusCode)
  else if ch = chr ' ' then .next r
  else r.fail .invalidStatus

/-- `s_res_status`. -/
def resStatus : Out :=
  if ch = cr then .next ((r.enter .resLineAlmostDone).callData .status)
  else if ch = lf then .next ((r.enter .headerFieldStart).callData .status)
  else .next r

/-- `s_res_status_start`. -/
def resStatusStart : Out :=
  let r := ((r.setMark .status).enter .resStatus).setIndex 0
  if ch = cr ∨ ch = lf then r.resStatus ch else .next r

/-- `s_res_status_code`. -/
def resStatusCode : Out :=
  if isNumber ch then
    let r := r.setStatusCode (r.fields.statusCode * 10 + (ch - chr '0').toNat)
    if 999 < r.fields.statusCode then r.fail .invalidStatus else .next r
  else if ch = chr ' ' then .next (r.enter .resStatusStart)
  else if ch = cr ∨ ch = lf then (r.enter .resStatusStart).resStatusStart ch
  else r.fail .invalidStatus

/-- `s_req_method`; the string of the method ends with a zero. -/
def reqMethod : Out :=
  if ch = 0 then r.fail .invalidMethod
  else
    let h := r.fields
    let r := r.check (h.index ≤ h.method.string.length)
    let c := h.method.string.getD h.index 0
    if ch = chr ' ' ∧ c = 0 then .next ((r.enter .reqSpacesBeforeUrl).setIndex (h.index + 1))
    else if ch = c then .next (r.setIndex (h.index + 1))
    else if chr 'A' ≤ ch ∧ ch ≤ chr 'Z' ∨ ch = chr '-' then
      match h.method.turned h.index ch with
      | none => r.fail .invalidMethod
      | some m => .next ((r.setMethod m).setIndex (h.index + 1))
    else r.fail .invalidMethod

/-- A character of a URL. -/
def urlChar : Out :=
  let s := parseUrlChar r.fields.state ch
  if s = .dead then (r.enter s).fail .invalidUrl else .next (r.enter s)

/-- `s_req_spaces_before_url`. -/
def reqSpacesBeforeUrl : Out :=
  if ch = chr ' ' then .next r
  else
    let r := r.setMark .url
    let r := if r.fields.method = .connect then r.enter .reqServerStart else r
    r.urlChar ch

/-- The states of a URL that may not end there. -/
def reqSchema : Out :=
  if ch = chr ' ' ∨ ch = cr ∨ ch = lf then r.fail .invalidUrl else r.urlChar ch

/-- The states of a URL that may end there. -/
def reqUrl : Out :=
  if ch = chr ' ' then .next ((r.enter .reqHttpStart).callData .url)
  else if ch = cr ∨ ch = lf then
    let s : State := if ch = cr then .reqLineAlmostDone else .headerFieldStart
    .next (((r.setVersion 0 9).enter s).callData .url)
  else r.urlChar ch

/-- `s_req_http_start`. -/
def reqHttpStart : Out :=
  if ch = chr ' ' then .next r
  else if ch = chr 'H' then .next (r.enter .reqHttpH)
  else if ch = chr 'I' ∧ r.fields.method = .source then .next (r.enter .reqHttpI)
  else r.fail .invalidConstant

/-- `s_req_http_end`. -/
def reqHttpEnd : Out :=
  if ch = cr then .next (r.enter .reqLineAlmostDone)
  else if ch = lf then .next (r.enter .headerFieldStart)
  else r.fail .invalidVersion

/-! ## Chunks -/

/-- `s_chunk_size_start`. -/
def chunkSizeStart : Out :=
  let r := (r.check (r.fields.nread = 1)).check r.fields.flags.chunked
  match unhex ch with
  | none => r.fail .invalidChunkSize
  | some v => .next ((r.setContentLength v).enter .chunkSize)

/-- `s_chunk_size`. -/
def chunkSize : Out :=
  let r := r.check r.fields.flags.chunked
  if ch = cr then .next (r.enter .chunkSizeAlmostDone)
  else
    match unhex ch with
    | none =>
      if ch = chr ';' ∨ ch = chr ' ' then .next (r.enter .chunkParameters)
      else r.fail .invalidChunkSize
    | some v =>
      if (ullongMax - 16) / 16 < r.fields.contentLength then r.fail .invalidContentLength
      else .next (r.setContentLength (r.fields.contentLength * 16 + v))

/-- `s_chunk_parameters`. -/
def chunkParameters : Out :=
  let r := r.check r.fields.flags.chunked
  if ch = cr then .next (r.enter .chunkSizeAlmostDone) else .next r

/-- `s_chunk_size_almost_done`. -/
def chunkSizeAlmostDone : Out :=
  let r := r.check r.fields.flags.chunked
  if ch ≠ lf then r.fail .strict
  else
    let r := r.setNread 0
    let r' :=
      if r.fields.contentLength = 0 then
        (r.setFlags fun f => { f with trailing := true }).enter .headerFieldStart
      else r.enter .chunkData
    .next (r'.notify (.chunkHeader r.fields.contentLength))

/-- `s_chunk_data_almost_done`. -/
def chunkDataAlmostDone : Out :=
  let r := (r.check r.fields.flags.chunked).check (r.fields.contentLength = 0)
  if ch ≠ cr then r.fail .strict
  else .next ((r.enter .chunkDataDone).callData .body)

/-- `s_chunk_data_done`. -/
def chunkDataDone : Out :=
  let r := r.check r.fields.flags.chunked
  if ch ≠ lf then r.fail .strict
  else .next (((r.setNread 0).enter .chunkSizeStart).notify .chunkComplete)

/-! ## The cases that take one byte -/

/-- The cases of the `switch` that look at `ch` only. -/
def byte : Out :=
  match r.fields.state with
  | .dead => if ch = cr ∨ ch = lf then .next r else r.fail .closedConnection
  | .startReqOrRes => r.startReqOrRes ch
  | .resOrRespH => r.resOrRespH ch
  | .startRes => r.startRes ch
  | .resH => r.expect ch (chr 'T') .resHT .strict
  | .resHT => r.expect ch (chr 'T') .resHTT .strict
  | .resHTT => r.expect ch (chr 'P') .resHTTP .strict
  | .resHTTP => r.expect ch (chr '/') .resHttpMajor .strict
  | .resHttpMajor => r.expectDigit ch (fun n => r.setVersion n r.fields.httpMinor) .resHttpDot
  | .resHttpDot => r.expect ch (chr '.') .resHttpMinor .invalidVersion
  | .resHttpMinor => r.expectDigit ch (fun n => r.setVersion r.fields.httpMajor n) .resHttpEnd
  | .resHttpEnd => r.expect ch (chr ' ') .resFirstStatusCode .invalidVersion
  | .resFirstStatusCode => r.resFirstStatusCode ch
  | .resStatusCode => r.resStatusCode ch
  | .resStatusStart => r.resStatusStart ch
  | .resStatus => r.resStatus ch
  | .resLineAlmostDone => r.expect ch lf .headerFieldStart .strict
  | .startReq => r.startReq ch
  | .reqMethod => r.reqMethod ch
  | .reqSpacesBeforeUrl => r.reqSpacesBeforeUrl ch
  | .reqSchema | .reqSchemaSlash | .reqSchemaSlashSlash | .reqServerStart => r.reqSchema ch
  | .reqServer | .reqServerWithAt | .reqPath | .reqQueryStringStart | .reqQueryString
  | .reqFragmentStart | .reqFragment => r.reqUrl ch
  | .reqHttpStart => r.reqHttpStart ch
  | .reqHttpH => r.expect ch (chr 'T') .reqHttpHT .strict
  | .reqHttpHT => r.expect ch (chr 'T') .reqHttpHTT .strict
  | .reqHttpHTT => r.expect ch (chr 'P') .reqHttpHTTP .strict
  | .reqHttpI => r.expect ch (chr 'C') .reqHttpIC .strict
  | .reqHttpIC => r.expect ch (chr 'E') .reqHttpHTTP .strict
  | .reqHttpHTTP => r.expect ch (chr '/') .reqHttpMajor .strict
  | .reqHttpMajor => r.expectDigit ch (fun n => r.setVersion n r.fields.httpMinor) .reqHttpDot
  | .reqHttpDot => r.expect ch (chr '.') .reqHttpMinor .invalidVersion
  | .reqHttpMinor => r.expectDigit ch (fun n => r.setVersion r.fields.httpMajor n) .reqHttpEnd
  | .reqHttpEnd => r.reqHttpEnd ch
  | .reqLineAlmostDone => r.expect ch lf .headerFieldStart .lfExpected
  | .headerFieldStart => r.headerFieldStart ch
  | .headerValueDiscardWs => r.headerValueDiscardWs ch
  | .headerValueDiscardWsAlmostDone => r.expect ch lf .headerValueDiscardLws .strict
  | .headerValueDiscardLws => r.headerValueDiscardLws ch
  | .headerValueStart => r.headerValueStart ch
  | .headerAlmostDone => r.headerAlmostDone ch
  | .headerValueLws => r.headerValueLws ch
  | .headersAlmostDone => r.headersAlmostDone ch
  | .headersDone => r.headersDone ch
  | .chunkSizeStart => r.chunkSizeStart ch
  | .chunkSize => r.chunkSize ch
  | .chunkParameters => r.chunkParameters ch
  | .chunkSizeAlmostDone => r.chunkSizeAlmostDone ch
  | .chunkDataAlmostDone => r.chunkDataAlmostDone ch
  | .chunkDataDone => r.chunkDataDone ch
  | .messageDone => r.messageDone
  | .headerField | .headerValue | .chunkData | .bodyIdentity | .bodyIdentityEof => .next r

end Round

/-! ## The loop of a header field -/

/-- What the loops over a header change of the parser. -/
structure Matcher where
  headerState : HeaderState
  index : Nat
  fault : Bool := false

namespace Matcher

variable (m : Matcher)

/-- The cases that compare with a name, of which `goal` has seen the last character. -/
def expect (name : List UInt8) (goal fallback : HeaderState) (c : UInt8) : Matcher :=
  let index := m.index + 1
  if name.length < index ∨ c ≠ name.getD index 0 then
    { m with headerState := fallback, index := index }
  else if index = name.length - 1 then { m with headerState := goal, index := index }
  else { m with index := index }

/-- The `switch` of `s_header_field`. -/
def fieldChar (ch : UInt8) : Matcher :=
  let c := token ch
  match m.headerState with
  | .general => m
  | .c => { m with headerState := if c = chr 'o' then .co else .general, index := m.index + 1 }
  | .co => { m with headerState := if c = chr 'n' then .con else .general, index := m.index + 1 }
  | .con =>
    { m with
      headerState :=
        if c = chr 'n' then .matchingConnection
        else if c = chr 't' then .matchingContentLength
        else .general
      index := m.index + 1 }
  | .matchingConnection => m.expect (ascii "connection") .connection .general c
  | .matchingProxyConnection => m.expect (ascii "proxy-connection") .connection .general c
  | .matchingContentLength => m.expect (ascii "content-length") .contentLength .general c
  | .matchingTransferEncoding => m.expect (ascii "transfer-encoding") .transferEncoding .general c
  | .matchingUpgrade => m.expect (ascii "upgrade") .upgrade .general c
  | .connection | .contentLength | .transferEncoding | .upgrade =>
    if ch ≠ chr ' ' then { m with headerState := .general } else m
  | _ => { m with fault := true }

end Matcher

/-- How far the inner loop of `h_general` moves the pointer over a header field. -/
def fieldRun (rest : List UInt8) : Nat :=
  ((rest.take (min (rest.length + 1) maxHeaderSize - 1)).takeWhile (token · ≠ 0)).length

/-- The loop of `s_header_field`, and how many characters it passes over. -/
def fieldLoop (m : Matcher) : (skip : Nat) → List UInt8 → Matcher × Nat
  | _, [] => (m, 0)
  | skip + 1, _ :: rest => (fieldLoop m skip rest).map id (· + 1)
  | 0, ch :: rest =>
    if token ch = 0 then (m, 0)
    else
      let skip := if m.headerState = .general then fieldRun rest else 0
      (fieldLoop (m.fieldChar ch) skip rest).map id (· + 1)

/-! ## The loop of a header value -/

/-- What the loop of `s_header_value` changes, with `h_state`. -/
structure Value extends Matcher where
  flags : Flags
  contentLength : Nat

namespace Value

variable (v : Value)

def setState (s : HeaderState) : Value := { v with headerState := s }

def expect (name : List UInt8) (goal fallback : HeaderState) (c : UInt8) : Value :=
  { v with toMatcher := v.toMatcher.expect name goal fallback c }

/-- The case `h_content_length_num`; what is not a length is an error. -/
def contentDigit (ch : UInt8) : Except Value Value :=
  if ch = chr ' ' then .ok (v.setState .contentLengthWs)
  else if !isNumber ch then .error v
  else if (ullongMax - 10) / 10 < v.contentLength then .error v
  else .ok { v with contentLength := v.contentLength * 10 + (ch - chr '0').toNat }

/-- The next token of a `Connection` header. -/
def nextToken : Value := { v with headerState := .matchingConnectionTokenStart, index := 0 }

/-- Behind a token of a `Connection` header that means something. -/
def afterToken (ch : UInt8) (flags : Flags) : Value :=
  if ch = chr ',' then { v with flags := flags }.nextToken
  else if ch ≠ chr ' ' then v.setState .matchingConnectionToken
  else v

/-- The `switch` of `s_header_value`. -/
def char (ch : UInt8) : Except Value Value :=
  let c := lower ch
  match v.headerState with
  | .general => .ok v
  | .connection | .transferEncoding => .ok { v with fault := true }
  | .contentLength =>
    if ch = chr ' ' then .ok v else (v.setState .contentLengthNum).contentDigit ch
  | .contentLengthNum => v.contentDigit ch
  | .contentLengthWs => if ch = chr ' ' then .ok v else .error v
  | .matchingTransferEncodingChunked =>
    .ok (v.expect (ascii "chunked") .transferEncodingChunked .general c)
  | .matchingConnectionTokenStart =>
    .ok (
      if c = chr 'k' then v.setState .matchingConnectionKeepAlive
      else if c = chr 'c' then v.setState .matchingConnectionClose
      else if c = chr 'u' then v.setState .matchingConnectionUpgrade
      else if token c ≠ 0 then v.setState .matchingConnectionToken
      else if c = chr ' ' ∨ c = 9 then v
      else v.setState .general)
  | .matchingConnectionKeepAlive =>
    .ok (v.expect (ascii "keep-alive") .connectionKeepAlive .matchingConnectionToken c)
  | .matchingConnectionClose =>
    .ok (v.expect (ascii "close") .connectionClose .matchingConnectionToken c)
  | .matchingConnectionUpgrade =>
    .ok (v.expect (ascii "upgrade") .connectionUpgrade .matchingConnectionToken c)
  | .matchingConnectionToken => .ok (if ch = chr ',' then v.nextToken else v)
  | .transferEncodingChunked => .ok (if ch ≠ chr ' ' then v.setState .general else v)
  | .connectionKeepAlive => .ok (v.afterToken ch { v.flags with connectionKeepAlive := true })
  | .connectionClose => .ok (v.afterToken ch { v.flags with connectionClose := true })
  | .connectionUpgrade => .ok (v.afterToken ch { v.flags with connectionUpgrade := true })
  | _ => .ok (v.setState .general)

end Value

/-- A character of a value. -/
def isValueChar (lenient : Bool) (c : UInt8) : Bool := lenient || isHeaderChar c

/-- How the loop of `s_header_value` ends: with the buffer, at an end of line, or with an error. -/
inductive ValueEnd
  | all
  | eol (ch : UInt8)
  | error (e : Errno)

/-- A character inside of a value. -/
def isText (lenient : Bool) (c : UInt8) : Bool := c ≠ cr && c ≠ lf && isValueChar lenient c

/-- The inner loop of `h_general` over a header value: how far it moves the pointer, unless a
character is an error. The character at `pe`, if there is one, is passed over. -/
def valueRun (lenient : Bool) (l : List UInt8) : Nat ⊕ Nat :=
  let window := l.take maxHeaderSize
  let n := (window.takeWhile (isText lenient)).length
  match window.drop n with
  | c :: _ => if c = cr ∨ c = lf then .inr (n - 1) else .inl n
  | [] => if window.length = l.length then .inr (n - 1) else .inr n

/-- The loop of `s_header_value`, and how many characters it passes over. -/
def valueLoop (lenient : Bool) (v : Value) : (skip : Nat) → List UInt8 → (Value × ValueEnd) × Nat
  | _, [] => ((v, .all), 0)
  | skip + 1, _ :: rest => (valueLoop lenient v skip rest).map id (· + 1)
  | 0, ch :: rest =>
    if ch = cr ∨ ch = lf then ((v, .eol ch), 0)
    else if !isValueChar lenient ch then ((v, .error .invalidHeaderToken), 0)
    else if v.headerState = .general then
      match valueRun lenient (ch :: rest) with
      | .inl n => ((v, .error .invalidHeaderToken), n)
      | .inr skip => (valueLoop lenient v skip rest).map id (· + 1)
    else
      match v.char ch with
      | .error v => ((v, .error .invalidContentLength), 0)
      | .ok v => (valueLoop lenient v 0 rest).map id (· + 1)

namespace Round

variable (r : Round)

/-! ## The cases that take many bytes, and how far they move the pointer -/

/-- `s_header_field`. -/
def headerField (l : List UInt8) : Out × Nat :=
  let (m, n) := fieldLoop ⟨r.fields.headerState, r.fields.index, false⟩ 0 l
  let r := ((r.setHeaderState m.headerState).setIndex m.index).check !m.fault
  match l.drop n with
  | [] => (r.count (n - 1) .next, n - 1)
  | ch :: _ =>
    (r.count n fun r =>
      if ch = chr ':' then .next ((r.enter .headerValueDiscardWs).callData .headerField)
      else r.fail .invalidHeaderToken, n)

/-- What the loop of `s_header_value` changes is stored, but for `h_state`. -/
def setValue (v : Value) : Round :=
  (((r.setFlags fun _ => v.flags).setContentLength v.contentLength).setIndex v.index).check !v.fault

/-- `s_header_value`, behind its loop. -/
def valueOut : (Value × ValueEnd) × Nat → Out × Nat
  | ((v, .all), n) => (((r.setValue v).setHeaderState v.headerState).count (n - 1) .next, n - 1)
  | ((v, .eol ch), n) =>
    let r := (r.setValue v).enter .headerAlmostDone
    if ch = cr then (((r.setHeaderState v.headerState).callData .headerValue).count n .next, n)
    else
      (r.count n fun r =>
        ((r.setHeaderState v.headerState).callDataNoadvance .headerValue).headerAlmostDone ch, n)
  | ((v, .error .invalidContentLength), n) =>
    (((r.setValue v).setHeaderState v.headerState).fail .invalidContentLength, n)
  | ((v, .error e), n) => ((r.setValue v).fail e, n)

/-- `s_header_value`. -/
def headerValue (l : List UInt8) : Out × Nat :=
  let h := r.fields
  r.valueOut (valueLoop h.lenientHttpHeaders
    ⟨⟨h.headerState, h.index, false⟩, h.flags, h.contentLength⟩ 0 l)

/-- `s_body_identity`; the last byte of the body is looked at again. -/
def bodyIdentity (l : List UInt8) : Out × Nat :=
  let n := min r.fields.contentLength l.length
  let r := r.check (r.fields.contentLength ≠ 0 && r.fields.contentLength ≠ ullongMax)
  let r := (r.setMark .body).setContentLength (r.fields.contentLength - n)
  if r.fields.contentLength = 0 then
    (((r.enter .messageDone).event (.data .body true false)).messageDone, n - 1)
  else (.next r, n - 1)

/-- `s_chunk_data`. -/
def chunkData (l : List UInt8) : Out × Nat :=
  let n := min r.fields.contentLength l.length
  let r := (r.check r.fields.flags.chunked).check
    (r.fields.contentLength ≠ 0 && r.fields.contentLength ≠ ullongMax)
  let r := (r.setMark .body).setContentLength (r.fields.contentLength - n)
  (.next (if r.fields.contentLength = 0 then r.enter .chunkDataAlmostDone else r), n - 1)

/-- The `switch`. -/
def switch (ch : UInt8) (rest : List UInt8) : Out × Nat :=
  match r.fields.state with
  | .headerField => r.headerField (ch :: rest)
  | .headerValue => r.headerValue (ch :: rest)
  | .bodyIdentity => r.bodyIdentity (ch :: rest)
  | .chunkData => r.chunkData (ch :: rest)
  | .bodyIdentityEof => (.next (r.setMark .body), rest.length)
  | _ => (r.byte ch, 0)

end Round

/-- The body of the loop of `http_parser_execute`. -/
def Fields.round (h : Fields) (ch : UInt8) (rest : List UInt8) : Out × Nat :=
  let r : Round := ⟨h, [], false⟩
  if h.state.parsingHeader then
    let r := r.setNread ((h.nread + 1) % 2 ^ 32)
    if maxHeaderSize < r.fields.nread then (r.fail .headerOverflow, 0) else r.switch ch rest
  else r.switch ch rest

/-! ## The whole -/

/-- What `http_parser_execute` keeps: for each mark the bytes from it up to `p`, and the callbacks,
each with what the call returns if this one does not return 0. -/
structure Run where
  fields : Fields
  mark : Mark → Option (List UInt8) := fun _ => none
  calls : List (ResponseCallback × Nat) := []
  fault : Bool := false

namespace Run

variable (r : Run)

/-- An event with the pointer at `p`, behind the bytes `passed` of this round and in front of `last`.
A mark that is set stays where it is. -/
def perform (p : Nat) (passed last : List UInt8) : Event → Run
  | .mark m => { r with mark := Function.update r.mark m (some ((r.mark m).getD [])) }
  | .data m withLast advance =>
    match r.mark m with
    | none => r
    | some bs =>
      let piece := bs ++ passed ++ if withLast then last else []
      { r with
        mark := Function.update r.mark m none
        calls := r.calls ++ [(m.callback r.fields piece, if advance then p + 1 else p)] }
  | .notify cb advance =>
    { r with calls := r.calls ++ [(.other cb, if advance then p + 1 else p)] }

/-- What a round did, which began in front of `l` and moved the pointer by `n` to `p`. -/
def after (p n : Nat) (l : List UInt8) (o : Round) : Run :=
  o.events.foldl (fun r e => r.perform p (l.take n) ((l.drop n).take 1) e)
    { r with fields := o.fields, fault := r.fault || o.fault }

/-- The pointer moves on. -/
def advance (bs : List UInt8) : Run := { r with mark := fun m => (r.mark m).map (· ++ bs) }

/-- What is left of the marks when the buffer ends. -/
def finish (p : Nat) : Run :=
  let marks := [Mark.headerField, .headerValue, .url, .body, .status]
  let one := (marks.filter fun m => (r.mark m).isSome).length ≤ 1
  marks.foldl (fun r m => r.perform p [] [] (.data m false false))
    { r with fault := r.fault || !decide one }

/-- The loop of `http_parser_execute` from `p` on, where a round has passed over `skip` bytes; and
what the call returns. -/
def loop (r : Run) (p : Nat) : (skip : Nat) → List UInt8 → Run × Nat
  | _, [] => (r.finish p, p)
  | skip + 1, _ :: rest => loop r (p + 1) skip rest
  | 0, ch :: rest =>
    match r.fields.round ch rest with
    | (.next o, n) =>
      loop ((r.after (p + n) n (ch :: rest) o).advance ((ch :: rest).take (n + 1))) (p + 1) n rest
    | (.error o, n) => (r.after (p + n) n (ch :: rest) o, p + n)
    | (.done o, n) => (r.after (p + n) n (ch :: rest) o, p + n + 1)

end Run

/-- The mark that a buffer begins with. -/
def State.resumed : State → Option Mark
  | .headerField => some .headerField
  | .headerValue => some .headerValue
  | .reqPath | .reqSchema | .reqSchemaSlash | .reqSchemaSlashSlash | .reqServerStart | .reqServer
  | .reqServerWithAt | .reqQueryStringStart | .reqQueryString | .reqFragmentStart | .reqFragment =>
    some .url
  | .resStatus => some .status
  | _ => none

/-- What `http_parser_execute` begins a buffer with. -/
def Run.start (h : Fields) : Run where
  fields := h
  mark m := if h.state.resumed = some m then some [] else none

/-- `http_parser_execute` at the end of the input. -/
def executeEof (h : Fields) : Run × Nat :=
  match h.state with
  | .bodyIdentityEof => ({ fields := h, calls := [(.other .messageComplete, 0)] }, 0)
  | .dead | .startReqOrRes | .startRes | .startReq => ({ fields := h }, 0)
  | _ => ({ fields := { h with httpErrno := .invalidEofState } }, 1)

/-- `http_parser_execute`. -/
def execute (h : Fields) (data : List UInt8) : Run × Nat :=
  if h.httpErrno ≠ .ok then ({ fields := h }, 0)
  else if data = [] then executeEof h
  else (Run.start h).loop 0 0 data

end SNet.Http.Parser
