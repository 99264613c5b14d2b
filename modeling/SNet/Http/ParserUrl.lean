import SNet.Http.Decoder
import SNet.Http.ParserStates

/-!
# Taking a URL apart

`http_parser_parse_url` runs the machine of URLs over a text and notes where its fields begin and how
long they are, in 16 bits each. `http_parse_host` takes the field of the server apart again, into the
user, the host and the port.
-/

namespace SNet.Http.Parser

/-- `enum http_parser_url_fields`. -/
inductive UrlPart
  | schema
  | host
  | port
  | path
  | query
  | fragment
  | userinfo
  deriving DecidableEq

/-- `http_parser_url`; a field whose bit in `field_set` is not set is `none`. -/
structure Url where
  port : Nat := 0
  field : UrlPart → Option UrlField := fun _ => none

/-- A number in a `uint16_t`. -/
def u16 (n : Nat) : Nat := n % 2 ^ 16

namespace Url

variable (u : Url) (uf : UrlPart)

/-- The field begins at `p` and has `len` characters. -/
def set (p len : Nat) : Url :=
  { u with field := Function.update u.field uf (some ⟨u16 p, u16 len⟩) }

/-- `field_data[uf].len++`. -/
def grow : Url :=
  { u with field := Function.update u.field uf ((u.field uf).map fun f => ⟨f.off, u16 (f.len + 1)⟩) }

end Url

/-! ## The server -/

/-- `enum http_host_state`. -/
inductive HostState
  | dead
  | userinfoStart
  | userinfo
  | hostStart
  | hostV6Start
  | host
  | hostV6
  | hostV6End
  | hostV6ZoneStart
  | hostV6Zone
  | hostPortStart
  | hostPort
  deriving DecidableEq

/-- `http_parse_host_char`. -/
def parseHostChar (s : HostState) (ch : UInt8) : HostState :=
  match s with
  | .userinfo | .userinfoStart =>
    if ch = chr '@' then .hostStart
    else if isUserinfoChar ch then .userinfo
    else .dead
  | .hostStart =>
    if ch = chr '[' then .hostV6Start
    else if isHostChar ch then .host
    else .dead
  | .host =>
    if isHostChar ch then .host
    else if ch = chr ':' then .hostPortStart
    else .dead
  | .hostV6End => if ch = chr ':' then .hostPortStart else .dead
  | .hostV6 =>
    if ch = chr ']' then .hostV6End
    else if isHex ch ∨ ch = chr ':' ∨ ch = chr '.' then .hostV6
    else if ch = chr '%' then .hostV6ZoneStart
    else .dead
  | .hostV6Start => if isHex ch ∨ ch = chr ':' ∨ ch = chr '.' then .hostV6 else .dead
  | .hostV6Zone => if ch = chr ']' then .hostV6End else zone ch
  | .hostV6ZoneStart => zone ch
  | .hostPort | .hostPortStart => if isNumber ch then .hostPort else .dead
  | .dead => .dead
where
  zone (ch : UInt8) : HostState :=
    if isAlphanum ch ∨ (ascii "%.-_~").contains ch then .hostV6Zone else .dead

/-- The body of the loop of `http_parse_host`, behind the transition from `s` to `newS`. -/
def noteHost (s newS : HostState) (p : Nat) (u : Url) : Url :=
  match newS with
  | .host => if s = .host then u.grow .host else restart u p
  | .hostV6 => if s = .hostV6 then u.grow .host else restart u p
  | .hostV6ZoneStart | .hostV6Zone => u.grow .host
  | .hostPort => if s = .hostPort then u.grow .port else u.set .port p 1
  | .userinfo => if s = .userinfo then u.grow .userinfo else u.set .userinfo p 1
  | _ => u
where
  /-- The offset is set, and the length, which was 0 before, goes up. -/
  restart (u : Url) (p : Nat) : Url :=
    { u with
      field := Function.update u.field .host
        ((u.field .host).map fun f => ⟨u16 p, u16 (f.len + 1)⟩) }

/-- The loop of `http_parse_host` over the characters from `p` on. -/
def hostLoop (s : HostState) (u : Url) (p : Nat) : List UInt8 → Option (HostState × Url)
  | [] => some (s, u)
  | ch :: rest =>
    let newS := parseHostChar s ch
    if newS = .dead then none else hostLoop newS (noteHost s newS p u) (p + 1) rest

/-- Where a server may end. -/
def HostState.isEnd : HostState → Bool
  | .hostStart | .hostV6Start | .hostV6 | .hostV6ZoneStart | .hostV6Zone | .hostPortStart
  | .userinfo | .userinfoStart => false
  | .dead | .host | .hostV6End | .hostPort => true

/-- `http_parse_host`, which fails with `none`. -/
def parseHost (buf : List UInt8) (u : Url) (server : UrlField) (foundAt : Bool) : Option Url :=
  let u := { u with field := Function.update u.field .host (some ⟨server.off, 0⟩) }
  let s := if foundAt then HostState.userinfoStart else .hostStart
  (hostLoop s u server.off ((buf.drop server.off).take server.len)).bind fun (s, u) =>
    if s.isEnd then some u else none

/-! ## The whole -/

/-- What the loop of `http_parser_parse_url` keeps. -/
structure UrlRun where
  s : State
  oldUf : Option UrlPart := none
  foundAt : Bool := false
  u : Url := {}

/-- The field that a state belongs to; `none` for the delimiters. -/
def State.urlPart : State → Option UrlPart
  | .reqSchema => some .schema
  | .reqServerWithAt | .reqServer => some .host
  | .reqPath => some .path
  | .reqQueryString => some .query
  | .reqFragment => some .fragment
  | _ => none

/-- The body of the loop of `http_parser_parse_url`. -/
def urlStep (r : UrlRun) (p : Nat) (ch : UInt8) : Option UrlRun :=
  let s := parseUrlChar r.s ch
  if s = .dead then none
  else
    let foundAt := r.foundAt || s = .reqServerWithAt
    match s.urlPart with
    | none => some { r with s := s, foundAt := foundAt }
    | some uf =>
      if r.oldUf = some uf then some { r with s := s, foundAt := foundAt, u := r.u.grow uf }
      else some ⟨s, some uf, foundAt, r.u.set uf p 1⟩

def urlLoop (r : UrlRun) (p : Nat) : List UInt8 → Option UrlRun
  | [] => some r
  | ch :: rest => (urlStep r p ch).bind fun r => urlLoop r (p + 1) rest

/-- The loop over the digits of the port. -/
def portLoop (v : Nat) : List UInt8 → Option Nat
  | [] => some v
  | c :: rest =>
    let v := v * 10 + (c - chr '0').toNat
    if 0xffff < v then none else portLoop v rest

/-- The end of `http_parser_parse_url`: the digits of the port are read. -/
def Url.readPort (u : Url) (buf : List UInt8) : Option Url :=
  match u.field .port with
  | none => some u
  | some f => (portLoop 0 ((buf.drop f.off).take f.len)).map fun v => { u with port := u16 v }

/-- `http_parser_parse_url`, which fails with `none`. -/
def parseUrl (buf : List UInt8) (isConnect : Bool) : Option Url := do
  if buf = [] then none
  let r ← urlLoop { s := if isConnect then .reqServerStart else .reqSpacesBeforeUrl } 0 buf
  if (r.u.field .schema).isSome && (r.u.field .host).isNone then none
  let u ← match r.u.field .host with
    | some server => parseHost buf r.u server r.foundAt
    | none => some r.u
  if isConnect && !((u.field .host).isSome && (u.field .port).isSome &&
      (u.field .schema).isNone && (u.field .path).isNone && (u.field .query).isNone &&
      (u.field .fragment).isNone && (u.field .userinfo).isNone) then none
  u.readPort buf

/-- What `parse_header_complete` reads of the fields. -/
def Url.info (u : Url) : HttpParserUrl := ⟨u.field .path, u.field .query⟩

end SNet.Http.Parser
