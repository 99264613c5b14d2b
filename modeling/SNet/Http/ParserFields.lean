import SNet.Http.ParserStates

/-!
# The fields of the parser

`struct http_parser` with its enumerations, and what is asked of it at the end of a message.
-/

namespace SNet.Http.Parser

/-- `enum http_parser_type`. -/
inductive ParserType
  | request
  | response
  | both
  deriving DecidableEq

/-- `enum http_errno`, as far as `http_parser_execute` sets it when every callback returns 0. -/
inductive Errno
  | ok
  | invalidEofState
  | headerOverflow
  | closedConnection
  | invalidVersion
  | invalidStatus
  | invalidMethod
  | invalidUrl
  | lfExpected
  | invalidHeaderToken
  | invalidContentLength
  | unexpectedContentLength
  | invalidChunkSize
  | invalidConstant
  | strict
  deriving DecidableEq

/-- `enum header_states`. -/
inductive HeaderState
  | general
  | c
  | co
  | con
  | matchingConnection
  | matchingProxyConnection
  | matchingContentLength
  | matchingTransferEncoding
  | matchingUpgrade
  | connection
  | contentLength
  | contentLengthNum
  | contentLengthWs
  | transferEncoding
  | upgrade
  | matchingTransferEncodingChunked
  | matchingConnectionTokenStart
  | matchingConnectionKeepAlive
  | matchingConnectionClose
  | matchingConnectionUpgrade
  | matchingConnectionToken
  | transferEncodingChunked
  | connectionKeepAlive
  | connectionClose
  | connectionUpgrade
  deriving DecidableEq

/-- `enum http_method`. -/
inductive Method
  | delete
  | get
  | head
  | post
  | put
  | connect
  | options
  | trace
  | copy
  | lock
  | mkcol
  | move
  | propfind
  | proppatch
  | search
  | unlock
  | bind
  | rebind
  | unbind
  | acl
  | report
  | mkactivity
  | checkout
  | merge
  | msearch
  | notify
  | subscribe
  | unsubscribe
  | patch
  | purge
  | mkcalendar
  | link
  | unlink
  | source
  deriving DecidableEq

namespace Method

/-- The number of a method in `HTTP_METHOD_MAP`. -/
def number : Method → Nat
  | .delete => 0
  | .get => 1
  | .head => 2
  | .post => 3
  | .put => 4
  | .connect => 5
  | .options => 6
  | .trace => 7
  | .copy => 8
  | .lock => 9
  | .mkcol => 10
  | .move => 11
  | .propfind => 12
  | .proppatch => 13
  | .search => 14
  | .unlock => 15
  | .bind => 16
  | .rebind => 17
  | .unbind => 18
  | .acl => 19
  | .report => 20
  | .mkactivity => 21
  | .checkout => 22
  | .merge => 23
  | .msearch => 24
  | .notify => 25
  | .subscribe => 26
  | .unsubscribe => 27
  | .patch => 28
  | .purge => 29
  | .mkcalendar => 30
  | .link => 31
  | .unlink => 32
  | .source => 33

/-- `method_strings`. -/
def string : Method → List UInt8
  | .delete => ascii "DELETE"
  | .get => ascii "GET"
  | .head => ascii "HEAD"
  | .post => ascii "POST"
  | .put => ascii "PUT"
  | .connect => ascii "CONNECT"
  | .options => ascii "OPTIONS"
  | .trace => ascii "TRACE"
  | .copy => ascii "COPY"
  | .lock => ascii "LOCK"
  | .mkcol => ascii "MKCOL"
  | .move => ascii "MOVE"
  | .propfind => ascii "PROPFIND"
  | .proppatch => ascii "PROPPATCH"
  | .search => ascii "SEARCH"
  | .unlock => ascii "UNLOCK"
  | .bind => ascii "BIND"
  | .rebind => ascii "REBIND"
  | .unbind => ascii "UNBIND"
  | .acl => ascii "ACL"
  | .report => ascii "REPORT"
  | .mkactivity => ascii "MKACTIVITY"
  | .checkout => ascii "CHECKOUT"
  | .merge => ascii "MERGE"
  | .msearch => ascii "M-SEARCH"
  | .notify => ascii "NOTIFY"
  | .subscribe => ascii "SUBSCRIBE"
  | .unsubscribe => ascii "UNSUBSCRIBE"
  | .patch => ascii "PATCH"
  | .purge => ascii "PURGE"
  | .mkcalendar => ascii "MKCALENDAR"
  | .link => ascii "LINK"
  | .unlink => ascii "UNLINK"
  | .source => ascii "SOURCE"

/-- The method that a first letter stands for, until another one follows. -/
def ofLetter (ch : UInt8) : Option Method :=
  if ch = chr 'A' then some .acl
  else if ch = chr 'B' then some .bind
  else if ch = chr 'C' then some .connect
  else if ch = chr 'D' then some .delete
  else if ch = chr 'G' then some .get
  else if ch = chr 'H' then some .head
  else if ch = chr 'L' then some .lock
  else if ch = chr 'M' then some .mkcol
  else if ch = chr 'N' then some .notify
  else if ch = chr 'O' then some .options
  else if ch = chr 'P' then some .post
  else if ch = chr 'R' then some .report
  else if ch = chr 'S' then some .subscribe
  else if ch = chr 'T' then some .trace
  else if ch = chr 'U' then some .unlock
  else none

/-- The `switch` of `s_req_method`: the method that a letter at an index turns this one into. -/
def turned (m : Method) (index : Nat) (ch : UInt8) : Option Method :=
  match m, index with
  | .post, 1 =>
    if ch = chr 'U' then some .put
    else if ch = chr 'A' then some .patch
    else if ch = chr 'R' then some .propfind
    else none
  | .put, 2 => if ch = chr 'R' then some .purge else none
  | .connect, 1 => if ch = chr 'H' then some .checkout else none
  | .connect, 2 => if ch = chr 'P' then some .copy else none
  | .mkcol, 1 =>
    if ch = chr 'O' then some .move
    else if ch = chr 'E' then some .merge
    else if ch = chr '-' then some .msearch
    else none
  | .mkcol, 2 => if ch = chr 'A' then some .mkactivity else none
  | .mkcol, 3 => if ch = chr 'A' then some .mkcalendar else none
  | .subscribe, 1 =>
    if ch = chr 'E' then some .search
    else if ch = chr 'O' then some .source
    else none
  | .report, 2 => if ch = chr 'B' then some .rebind else none
  | .propfind, 4 => if ch = chr 'P' then some .proppatch else none
  | .lock, 1 => if ch = chr 'I' then some .link else none
  | .unlock, 2 =>
    if ch = chr 'S' then some .unsubscribe
    else if ch = chr 'B' then some .unbind
    else none
  | .unlock, 3 => if ch = chr 'I' then some .unlink else none
  | _, _ => none

end Method

/-- `enum flags`. -/
structure Flags where
  chunked : Bool := false
  connectionKeepAlive : Bool := false
  connectionClose : Bool := false
  connectionUpgrade : Bool := false
  trailing : Bool := false
  upgrade : Bool := false
  skipbody : Bool := false
  contentlength : Bool := false
  deriving DecidableEq

/-- `struct http_parser`. -/
structure Fields where
  type : ParserType
  flags : Flags := {}
  state : State
  headerState : HeaderState := .general
  index : Nat := 0
  lenientHttpHeaders : Bool := false
  nread : Nat := 0
  contentLength : Nat := 0
  httpMajor : Nat := 0
  httpMinor : Nat := 0
  statusCode : Nat := 0
  method : Method := .delete
  httpErrno : Errno := .ok
  upgrade : Bool := false
  deriving DecidableEq

/-- `ULLONG_MAX`: no length was given. -/
def ullongMax : Nat := 2 ^ 64 - 1

def maxHeaderSize : Nat := 80 * 1024

namespace Fields

variable (h : Fields)

/-- `start_state`. -/
def startState : State := if h.type = .request then .startReq else .startRes

/-- `http_message_needs_eof`. -/
def needsEof : Bool :=
  if h.type = .request then false
  else if h.statusCode / 100 = 1 ∨ h.statusCode = 204 ∨ h.statusCode = 304 ∨ h.flags.skipbody then
    false
  else !(h.flags.chunked || h.contentLength != ullongMax)

/-- `http_should_keep_alive`. -/
def shouldKeepAlive : Bool :=
  if 0 < h.httpMajor ∧ 0 < h.httpMinor then !h.flags.connectionClose && !h.needsEof
  else h.flags.connectionKeepAlive && !h.needsEof

/-- `NEW_MESSAGE()`. -/
def newMessage : State := if h.shouldKeepAlive then h.startState else .dead

/-- `http_parser_init`. -/
def init (t : ParserType) : Fields where
  type := t
  state := match t with
    | .request => .startReq
    | .response => .startRes
    | .both => .startReqOrRes

end Fields

/-- `TOKEN`, in strict mode: a character of a token in lower case, or 0. -/
def token (c : UInt8) : UInt8 :=
  if chr 'A' ≤ c ∧ c ≤ chr 'Z' then lower c
  else if isNumber c ∨ chr 'a' ≤ c ∧ c ≤ chr 'z' ∨ (ascii "!#$%&'*+-.^_`|~").contains c then c
  else 0

/-- `unhex`, without its -1. -/
def unhex (c : UInt8) : Option Nat :=
  if isNumber c then some (c - chr '0').toNat
  else if chr 'a' ≤ lower c ∧ lower c ≤ chr 'f' then some ((lower c - chr 'a').toNat + 10)
  else none

/-- `IS_HEADER_CHAR`. -/
def isHeaderChar (c : UInt8) : Bool := c == cr || c == lf || c == 9 || (31 < c && c != 127)

end SNet.Http.Parser
