import SNet.Http.ParserUrl

/-!
# The URLs that the parser takes apart

The language of `http_parser_parse_url`, as texts made of their parts: `UrlText.WellFormed` says what
each part is made of, and `Url.Shows` that the fields which were noted show the parts of a text.
-/

namespace SNet.Http.Parser

/-- A host: a name, or an address in brackets with or without a zone. -/
inductive Host
  | name (cs : List UInt8)
  | literal (address : List UInt8) (zone : Option (List UInt8))

/-- The text of an optional part with the character in front of it. -/
def led (c : UInt8) (part : Option (List UInt8)) : List UInt8 := part.elim [] (c :: ·)

namespace Host

/-- What the field of the host shows: a name, or what is between the brackets. -/
def inner : Host → List UInt8
  | .name cs => cs
  | .literal address zone => address ++ led (chr '%') zone

def text : Host → List UInt8
  | .name cs => cs
  | .literal address zone => chr '[' :: (address ++ (led (chr '%') zone ++ [chr ']']))

/-- A character of an address in brackets. -/
def isAddressChar (c : UInt8) : Bool := isHex c || c == chr ':' || c == chr '.'

def isZoneChar (c : UInt8) : Bool := isAlphanum c || (ascii "%.-_~").contains c

def WellFormed : Host → Prop
  | .name cs => cs ≠ [] ∧ ∀ c ∈ cs, isHostChar c
  | .literal address zone =>
    (address ≠ [] ∧ ∀ c ∈ address, isAddressChar c) ∧
      ∀ z ∈ zone, z ≠ [] ∧ ∀ c ∈ z, isZoneChar c

end Host

/-- The value of the digits of a port. -/
def portValue (digits : List UInt8) : Nat :=
  digits.foldl (fun v c => v * 10 + (c - chr '0').toNat) 0

/-- A server: the user in front of `@`, the host, and the digits behind `:`. -/
structure Server where
  user : Option (List UInt8)
  host : Host
  port : Option (List UInt8)

namespace Server

variable (a : Server)

/-- What stands in front of the host. -/
def front : List UInt8 := a.user.elim [] (· ++ [chr '@'])

/-- The host and what follows it. -/
def behind : List UInt8 := a.host.text ++ led (chr ':') a.port

def text : List UInt8 := a.front ++ a.behind

structure WellFormed : Prop where
  user : ∀ cs ∈ a.user, ∀ c ∈ cs, isUserinfoChar c
  host : a.host.WellFormed
  port : ∀ cs ∈ a.port, cs ≠ [] ∧ ∀ c ∈ cs, isNumber c

end Server

/-- A text in its parts. What follows the first `#` may begin with more of them. -/
structure UrlText where
  server : Option (List UInt8 × Server)
  path : Option (List UInt8)
  query : Option (List UInt8)
  fragment : Option (List UInt8)

def isQueryChar (c : UInt8) : Bool := isUrlChar c || c == chr '?'

def isFragmentChar (c : UInt8) : Bool := isQueryChar c || c == chr '#'

namespace UrlText

variable (t : UrlText)

/-- What stands in front of the path. -/
def front : List UInt8 := t.server.elim [] fun s => s.1 ++ ascii "://" ++ s.2.text

def text : List UInt8 :=
  t.front ++ t.path.getD [] ++ led (chr '?') t.query ++ led (chr '#') t.fragment

/-- A part that is not empty. -/
def part? (cs : Option (List UInt8)) : Option (List UInt8) := cs.filter (!·.isEmpty)

/-- What each field shows. An empty user, query or fragment is none. -/
def part : UrlPart → Option (List UInt8)
  | .schema => t.server.map (·.1)
  | .userinfo => part? (t.server.bind (·.2.user))
  | .host => t.server.map (·.2.host.inner)
  | .port => t.server.bind (·.2.port)
  | .path => t.path
  | .query => part? t.query
  | .fragment => part? (t.fragment.map (·.dropWhile (· == chr '#')))

/-- A text without a server begins with its path, one with a server may end there; a fragment does
not follow a server. -/
structure Shaped : Prop where
  server : ∀ s ∈ t.server, s.1 ≠ [] ∧ (∀ c ∈ s.1, isAlpha c) ∧ s.2.WellFormed
  path : ∀ cs ∈ t.path, ∃ c cs', cs = c :: cs' ∧
    (c = chr '/' ∨ c = chr '*' ∧ t.server = none) ∧ ∀ c ∈ cs', isUrlChar c
  path_of_none : t.server = none → t.path ≠ none
  query : ∀ cs ∈ t.query, ∀ c ∈ cs, isQueryChar c
  fragment : ∀ cs ∈ t.fragment, ∀ c ∈ cs, isFragmentChar c
  fragment_of_none : t.path = none → t.query = none → t.fragment = none

structure WellFormed : Prop extends t.Shaped where
  port : ∀ cs ∈ t.part .port, portValue cs ≤ 0xffff

end UrlText

namespace Url

/-- The text of a field. -/
def shown (buf : List UInt8) (u : Url) (uf : UrlPart) : Option (List UInt8) :=
  (u.field uf).map fun f => (buf.drop f.off).take f.len

/-- The fields show the parts of a text, and the port is what its digits say. -/
structure Shows (u : Url) (t : UrlText) : Prop where
  field : ∀ uf, u.shown t.text uf = t.part uf
  port : u.port = (t.part .port).elim 0 portValue

end Url

end SNet.Http.Parser
