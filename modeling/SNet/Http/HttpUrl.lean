import SNet.Http.Url

/-!
# The object that keeps a url

`HttpUrl` keeps a url as text and in parts. Parsing and building are put off until they are needed:
`parse` says that the parts are up to date, `built` that the text is. A method that throws leaves
what was done before; its outcome is the object that it leaves and what it throws.
-/

namespace SNet.Http

open Text Url

structure HttpUrl extends UrlParts where
  url : List UInt8 := []
  parse : Bool := true
  built : Bool := true
  deriving DecidableEq, Repr

namespace HttpUrl

/-- What a method leaves, and what it throws. What is undefined ends a method as an exception does. -/
abbrev Outcome := HttpUrl × Option UrlError

/-- `HttpUrl(url_str)` -/
def ofString (text : List UInt8) : HttpUrl := { url := text, parse := false, built := false }

def parseUrl (u : HttpUrl) : Outcome :=
  if u.url = [] then ({}, none)
  else
    match parseParts u.url with
    | .ok parts => ({ u with toUrlParts := parts, parse := true, built := false }, none)
    | .error e => (u, some e)

def lazyParse (u : HttpUrl) : Outcome := if u.parse then (u, none) else parseUrl u

/-- What a method does behind `lazy_parse()`. -/
def parsed (f : HttpUrl → Except UrlError HttpUrl) (u : HttpUrl) : Outcome :=
  match lazyParse u with
  | (u, none) =>
    match f u with
    | .ok v => (v, none)
    | .error e => (u, some e)
  | (u, some e) => (u, some e)

/-- An argument is checked before anything is done. -/
def guarded (valid : Bool) (reason : List UInt8) (f : HttpUrl → Outcome) (u : HttpUrl) : Outcome :=
  if valid then f u else (u, some (.parse reason))

/-- What is assigned when it is different from what is there. -/
def changed (same : Bool) (v u : HttpUrl) : HttpUrl := if same then u else { v with built := false }

def quoted (text s : List UInt8) : List UInt8 := text ++ s ++ ascii "'"

/-! ## The text -/

def buildUrl : HttpUrl → Outcome :=
  parsed fun u => (buildText u.toUrlParts).map fun text => { u with url := text, built := false }

/-- `str()`; the text that is returned is `url` of what is left. -/
def str (u : HttpUrl) : Outcome := if u.built then (u, none) else buildUrl u

/-- `str(url_str)` -/
def setStr (text : List UInt8) (u : HttpUrl) : Outcome :=
  ({ u with url := text, parse := false, built := false }, none)

def clear (_ : HttpUrl) : Outcome := ({}, none)

/-! ## The parts -/

/-- The methods that only look at a part. -/
def get : HttpUrl → Outcome := parsed .ok

def setScheme (s : List UInt8) : HttpUrl → Outcome :=
  guarded (isScheme s) (quoted (ascii "Invalid scheme '") s) <| parsed fun u =>
    let o := toLower s
    let port := if isDefaultPort o u.port then [] else u.port
    .ok (changed (o = u.scheme) { u with scheme := o, port := port } u)

def setUserInfo (s : List UInt8) : HttpUrl → Outcome :=
  guarded (s.length ≤ 256) (quoted (ascii "User info is longer than 256 characters '") s) <|
    parsed fun u => .ok (changed (u.user = s) { u with user := s } u)

/-- The version and the host that are made of the arguments. An empty host has the version -1, which
is 255 in eight bits without a sign. -/
def checkHost (h : List UInt8) (ipV : UInt8) : Except UrlError (UInt8 × List UInt8) :=
  if h = [] then .ok (255, [])
  else if isIpv4 h then
    if isValidIpv4 h then .ok (4, h)
    else .error (.parse (quoted (ascii "Invalid IPv4 address '") h))
  else if ipV ≠ 0 ∧ ipV ≠ 4 ∧ ipV ≠ 6 then
    if isIpv6 h then .ok (ipV, h)
    else .error (.parse (quoted (ascii "Invalid IPvFuture address '") h))
  else if isIpv6 h then
    if isValidIpv6 h then (normalizeIPv6 h).map (6, ·)
    else .error (.parse (quoted (ascii "Invalid IPv6 address '") h))
  else if isRegName h then .ok (0, normalizeRegName h)
  else .error (.parse (quoted (ascii "Invalid host '") h))

/-- The versions are compared as they are, one with a sign and one without. -/
def setHost (h : List UInt8) (ipV : UInt8) : HttpUrl → Outcome :=
  guarded (h.length ≤ 253) (quoted (ascii "Host is longer than 253 characters '") h) <|
    parsed fun u => (checkHost h ipV).map fun r =>
      changed (u.host = r.2 ∧ u.ipV.toInt = r.1.toNat) { u with host := r.2, ipV := r.1.toInt8 } u

def setPort (p : List UInt8) : HttpUrl → Outcome :=
  guarded (isPort p) (quoted (ascii "Invalid port '") p) <| parsed fun u =>
    let o := if isDefaultPort u.scheme p then [] else p
    .ok (changed (u.port = o) { u with port := o } u)

/-- `port(num)` -/
def setPortNumber (n : UInt16) : HttpUrl → Outcome := setPort (ascii (toString n.toNat))

def setPath (p : List UInt8) : HttpUrl → Outcome :=
  guarded (p.length ≤ 8000) (quoted (ascii "Path is longer than 8000 characters '") p) <|
    parsed fun u =>
      let o := normalizePath p
      .ok (changed (u.path = o) { u with path := o } u)

def setFragment (f : List UInt8) : HttpUrl → Outcome :=
  guarded (f.length ≤ 256) (quoted (ascii "Fragment is longer than 256 characters '") f) <|
    parsed fun u => .ok (changed (u.fragment = f) { u with fragment := f } u)

/-! ## The query -/

def invalidIndex (i : Nat) : UrlError :=
  .outOfRange (ascii "Invalid HttpUrl query index (" ++ ascii (toString i) ++ ascii ")")

/-- `query(i)` -/
def queryAt (i : Nat) : HttpUrl → Outcome :=
  parsed fun u => if i < u.query.length then .ok u else .error (invalidIndex i)

/-- `set_query()`, and what the caller makes of the query that it gets. -/
def mutateQuery (q : List KeyVal) : HttpUrl → Outcome :=
  parsed fun u => .ok { u with query := q, built := false }

/-- `set_query(i)`, and what the caller makes of the entry that it gets. -/
def mutateEntry (i : Nat) (entry : KeyVal) : HttpUrl → Outcome :=
  parsed fun u =>
    if i < u.query.length then .ok { u with query := u.query.set i entry, built := false }
    else .error (invalidIndex i)

/-- `set_query(q)` -/
def setQuery (q : List KeyVal) : HttpUrl → Outcome :=
  parsed fun u => .ok (changed (q = u.query) { u with query := q } u)

def addQuery (entry : KeyVal) : HttpUrl → Outcome :=
  parsed fun u => .ok { u with query := u.query ++ [entry], built := false }

/-! ## The port -/

/-- What `port()` returns when the parts are up to date. -/
def portValue (u : UrlParts) : Except UrlError UInt32 :=
  if u.port = [] then .ok 80
  else
    match stoi u.port with
    | .ok n => .ok (UInt32.ofInt n)
    | .error e => .error (.stoi e)

/-- `port()` -/
def getPort : HttpUrl → Outcome := parsed fun u => (portValue u.toUrlParts).map fun _ => u

/-! ## Runs -/

/-- The calls of methods. -/
inductive Call
  | get
  | str
  | getPort
  | queryAt (i : Nat)
  | clear
  | setStr (text : List UInt8)
  | setScheme (s : List UInt8)
  | setUserInfo (s : List UInt8)
  | setHost (h : List UInt8) (ipV : UInt8)
  | setPort (p : List UInt8)
  | setPortNumber (n : UInt16)
  | setPath (p : List UInt8)
  | mutateQuery (q : List KeyVal)
  | mutateEntry (i : Nat) (entry : KeyVal)
  | setQuery (q : List KeyVal)
  | addQuery (entry : KeyVal)
  | setFragment (f : List UInt8)
  deriving Repr

def call (u : HttpUrl) : Call → Outcome
  | .get => u.get
  | .str => u.str
  | .getPort => u.getPort
  | .queryAt i => u.queryAt i
  | .clear => u.clear
  | .setStr text => u.setStr text
  | .setScheme s => u.setScheme s
  | .setUserInfo s => u.setUserInfo s
  | .setHost h ipV => u.setHost h ipV
  | .setPort p => u.setPort p
  | .setPortNumber n => u.setPortNumber n
  | .setPath p => u.setPath p
  | .mutateQuery q => u.mutateQuery q
  | .mutateEntry i entry => u.mutateEntry i entry
  | .setQuery q => u.setQuery q
  | .addQuery entry => u.addQuery entry
  | .setFragment f => u.setFragment f

/-- The object after calls of methods, whether they throw or not. -/
def run (u : HttpUrl) (calls : List Call) : HttpUrl := calls.foldl (fun u c => (u.call c).1) u

end HttpUrl

end SNet.Http
