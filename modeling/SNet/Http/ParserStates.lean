import SNet.Library.Bytes

/-!
# The states of the parser

The tables and character classes of `http_parser`, in its strict mode, and the states of its
machine. `parseUrlChar` is the part of the machine that `http_parser_execute` and
`http_parser_parse_url` share.
-/

namespace SNet.Http.Parser

/-- `enum state`. -/
inductive State
  | dead
  | startReqOrRes
  | resOrRespH
  | startRes
  | resH
  | resHT
  | resHTT
  | resHTTP
  | resHttpMajor
  | resHttpDot
  | resHttpMinor
  | resHttpEnd
  | resFirstStatusCode
  | resStatusCode
  | resStatusStart
  | resStatus
  | resLineAlmostDone
  | startReq
  | reqMethod
  | reqSpacesBeforeUrl
  | reqSchema
  | reqSchemaSlash
  | reqSchemaSlashSlash
  | reqServerStart
  | reqServer
  | reqServerWithAt
  | reqPath
  | reqQueryStringStart
  | reqQueryString
  | reqFragmentStart
  | reqFragment
  | reqHttpStart
  | reqHttpH
  | reqHttpHT
  | reqHttpHTT
  | reqHttpHTTP
  | reqHttpI
  | reqHttpIC
  | reqHttpMajor
  | reqHttpDot
  | reqHttpMinor
  | reqHttpEnd
  | reqLineAlmostDone
  | headerFieldStart
  | headerField
  | headerValueDiscardWs
  | headerValueDiscardWsAlmostDone
  | headerValueDiscardLws
  | headerValueStart
  | headerValue
  | headerValueLws
  | headerAlmostDone
  | chunkSizeStart
  | chunkSize
  | chunkParameters
  | chunkSizeAlmostDone
  | headersAlmostDone
  | headersDone
  | chunkData
  | chunkDataAlmostDone
  | chunkDataDone
  | bodyIdentity
  | bodyIdentityEof
  | messageDone
  deriving DecidableEq

/-- `PARSING_HEADER`: the states up to `s_headers_done`. -/
def State.parsingHeader : State → Bool
  | .chunkData | .chunkDataAlmostDone | .chunkDataDone | .bodyIdentity | .bodyIdentityEof
  | .messageDone => false
  | _ => true

/-! ## Characters -/

def cr : UInt8 := 13
def lf : UInt8 := 10

/-- The character of a `char` constant. -/
def chr (c : Char) : UInt8 := UInt8.ofNat c.toNat

def lower (c : UInt8) : UInt8 := c ||| 0x20

def isAlpha (c : UInt8) : Bool := chr 'a' ≤ lower c && lower c ≤ chr 'z'

def isNumber (c : UInt8) : Bool := chr '0' ≤ c && c ≤ chr '9'

def isAlphanum (c : UInt8) : Bool := isAlpha c || isNumber c

def isHex (c : UInt8) : Bool := isNumber c || (chr 'a' ≤ lower c && lower c ≤ chr 'f')

def isMark (c : UInt8) : Bool := (ascii "-_.!~*'()").contains c

def isUserinfoChar (c : UInt8) : Bool :=
  isAlphanum c || isMark c || (ascii "%;:&=+$,").contains c

def isHostChar (c : UInt8) : Bool := isAlphanum c || c == chr '.' || c == chr '-'

/-- `normal_url_char`, as far as it is not zero. -/
def normalUrlChar : List UInt8 :=
  [0, 0, 0, 0, 0xf6, 0xff, 0xff, 0x7f, 0xff, 0xff, 0xff, 0xff, 0xff, 0xff, 0xff, 0x7f]

/-- `IS_URL_CHAR`, with `BIT_AT`. -/
def isUrlChar (c : UInt8) : Bool := normalUrlChar.getD (c >>> 3).toNat 0 &&& (1 <<< (c &&& 7)) != 0

/-! ## The machine of URLs -/

def parseUrlChar (s : State) (ch : UInt8) : State :=
  if ch = chr ' ' ∨ ch = cr ∨ ch = lf ∨ ch = 9 ∨ ch = 12 then .dead
  else
    match s with
    | .reqSpacesBeforeUrl =>
      if ch = chr '/' ∨ ch = chr '*' then .reqPath
      else if isAlpha ch then .reqSchema
      else .dead
    | .reqSchema =>
      if isAlpha ch then .reqSchema
      else if ch = chr ':' then .reqSchemaSlash
      else .dead
    | .reqSchemaSlash => if ch = chr '/' then .reqSchemaSlashSlash else .dead
    | .reqSchemaSlashSlash => if ch = chr '/' then .reqServerStart else .dead
    | .reqServerWithAt => if ch = chr '@' then .dead else server ch
    | .reqServerStart | .reqServer => server ch
    | .reqPath =>
      if isUrlChar ch then .reqPath
      else if ch = chr '?' then .reqQueryStringStart
      else if ch = chr '#' then .reqFragmentStart
      else .dead
    | .reqQueryStringStart | .reqQueryString =>
      if isUrlChar ch then .reqQueryString
      else if ch = chr '?' then .reqQueryString
      else if ch = chr '#' then .reqFragmentStart
      else .dead
    | .reqFragmentStart =>
      if isUrlChar ch then .reqFragment
      else if ch = chr '?' then .reqFragment
      else if ch = chr '#' then .reqFragmentStart
      else .dead
    | .reqFragment =>
      if isUrlChar ch ∨ ch = chr '?' ∨ ch = chr '#' then .reqFragment else .dead
    | _ => .dead
where
  /-- The case of the server, at its start and behind an `@`. -/
  server (ch : UInt8) : State :=
    if ch = chr '/' then .reqPath
    else if ch = chr '?' then .reqQueryStringStart
    else if ch = chr '@' then .reqServerWithAt
    else if isUserinfoChar ch ∨ ch = chr '[' ∨ ch = chr ']' then .reqServer
    else .dead

end SNet.Http.Parser
