import SNet.Http.UrlCoding

/-!
# The parts of a url

`parse_url` finds the ranges of the parts first and decodes them then; `build_url` writes the parts
one behind the other. Both are modelled as functions between texts and parts, without the object
that keeps them.
-/

namespace SNet.Http.Url

structure KeyVal where
  key : List UInt8
  val : List UInt8
  deriving DecidableEq, Repr

/-- The parts of a url. The version is 0 for a name, 4 and 6 for addresses, -1 for no host. -/
structure UrlParts where
  scheme : List UInt8 := []
  user : List UInt8 := []
  host : List UInt8 := []
  ipV : Int8 := -1
  port : List UInt8 := []
  path : List UInt8 := []
  query : List KeyVal := []
  fragment : List UInt8 := []
  deriving DecidableEq, Repr

/-! ## Paths -/

/-- The body of the loop over the elements that a slash ends. -/
def pathStep (elems : List (List UInt8)) (elem : List UInt8) : List (List UInt8) :=
  if elem = [] ∨ elem = [dot] then elems
  else if elem = [dot, dot] then elems.dropLast
  else elems ++ [elem]

/-- The elements of a path, `.` and `..` resolved. -/
def pathElems (s : List UInt8) : List (List UInt8) :=
  let elems := (s.splitOn slash).dropLast.foldl pathStep []
  let elem := (s.splitOn slash).getLastD []
  if elem = [dot] then elems ++ [[]]
  else if elem = [dot, dot] then elems.dropLast
  else elems ++ [elem]

def normalizePath (s : List UInt8) : List UInt8 :=
  if s = [] then s
  else (if s.head? = some slash then [slash] else []) ++ [slash].intercalate (pathElems s)

/-! ## Parsing -/

/-- The ranges of a text that the parts are decoded from. -/
structure UrlRanges where
  scheme : Option (List UInt8) := none
  user : Option (List UInt8) := none
  host : Option (List UInt8) := none
  ipV : Int8 := -1
  port : Option (List UInt8) := none
  path : Option (List UInt8) := none
  query : Option (List UInt8) := none
  fragment : Option (List UInt8) := none

def hostInvalid (url : List UInt8) : UrlError :=
  .parse (ascii "Host address in '" ++ url ++ ascii "' is invalid")

/-- `ip_v` when the digit `c` and then `d` are read. -/
def futureVersion (c d : UInt8) : Int8 :=
  if isHexdigit d then ((getHexDigit c).toInt32 <<< 8 ||| (getHexDigit d).toInt32).toInt8
  else getHexDigit c

/-- The version and the host behind `[v`, up to the bracket that follows. The code does not go on to
the character behind a second digit, which is not a dot then. -/
def futureHost : List UInt8 → Option (Int8 × List UInt8)
  | c :: d :: host =>
    if isHexdigit c ∧ futureVersion c d ≠ -1 ∧ d = dot ∧ isChars host 0x05 then
      some (futureVersion c d, host)
    else none
  | _ => none

/-- What stands between brackets, and what follows them. -/
def bracketedHost (url rest : List UInt8) :
    (b : List UInt8) → Except UrlError (Int8 × List UInt8 × List UInt8)
  | 118 :: b => -- 'v'
    match futureHost b with
    | some (ipV, host) => .ok (ipV, host, rest)
    | none => .error (hostInvalid url)
  | b => if isIpv6 b then .ok (6, b, rest) else .error (hostInvalid url)

/-- A host in brackets, and what follows it. -/
def literalHost (url b : List UInt8) : Except UrlError (Int8 × List UInt8 × List UInt8) :=
  let (b, p) := findChar b closeBracket
  if p = [] then .error (.parse (ascii "Missing ] in '" ++ url ++ ascii "'"))
  else bracketedHost url p.tail b

/-- A host without brackets, and what follows it. -/
def namedHost (url b : List UInt8) : Except UrlError (Int8 × List UInt8 × List UInt8) :=
  let (host, p) := findChar b colon
  if isIpv4 host then .ok (4, host, p)
  else if isRegName host then .ok (0, host, p)
  else .error (hostInvalid url)

def findHost (url : List UInt8) : (b : List UInt8) →
    Except UrlError (Int8 × List UInt8 × List UInt8)
  | c :: b => if c = openBracket then literalHost url b else namedHost url (c :: b)
  | [] => namedHost url []

/-- The user info in front of `@`, and what follows it. -/
def findUser (url b : List UInt8) : Except UrlError (Option (List UInt8) × List UInt8) :=
  let (user, p) := findChar b atSign
  if p = [] then .ok (none, b)
  else if isChars user 0x05 then .ok (some user, p.tail)
  else .error (.parse (ascii "User info in '" ++ url ++ ascii "' is invalid"))

/-- The port behind a colon. What else may stand behind a host in brackets is not looked at. -/
def findPort (url : List UInt8) : (b : List UInt8) → Except UrlError (Option (List UInt8))
  | c :: b =>
    if c = colon then
      if isPort b then .ok (some b)
      else .error (.parse (ascii "Port '" ++ b ++ ascii "' in '" ++ url ++ ascii "' is invalid"))
    else .ok none
  | [] => .ok none

/-- The authority of a url, between `//` and what ends it. -/
def splitAuthority (url b : List UInt8) : Except UrlError UrlRanges := do
  let (user, b) ← findUser url b
  let (ipV, host, b) ← findHost url b
  let port ← findPort url b
  .ok { user := user, host := some host, ipV := ipV, port := port }

/-- The part up to `:`, if that comes before `/`, `?` and `#`, and what follows it. -/
def splitScheme (url : List UInt8) : Except UrlError (Option (List UInt8) × List UInt8) :=
  let (scheme, p) := findFirstOf url [colon, slash, questionMark, numberSign]
  if p.head? = some colon then
    if isScheme scheme then .ok (some scheme, p.tail)
    else .error (.parse (ascii "Scheme in '" ++ url ++ ascii "' is invalid"))
  else .ok (none, url)

/-- The authority, if there is one, and what follows it. The place `p` that the code looks at first
is `b` when a slash stands there. -/
def splitHost (url b : List UInt8) : Except UrlError (UrlRanges × List UInt8) :=
  if 1 < b.length ∧ b.take 2 = [slash, slash] then
    let (authority, p) := findFirstOf (b.drop 2) [slash, questionMark, numberSign]
    (splitAuthority url authority).map (·, p)
  else .ok ({}, b)

def pathInvalid (path url : List UInt8) : UrlError :=
  .parse (ascii "Path '" ++ path ++ ascii "' in '" ++ url ++ ascii "' is invalid")

/-- The path, the query and the fragment. -/
def splitPath (url b : List UInt8) (ranges : UrlRanges) : Except UrlError UrlRanges :=
  let (path, p) := findFirstOf b [questionMark, numberSign]
  if !isChars path 0x2F then .error (pathInvalid path url)
  else
    let isQuery := p.head? = some questionMark
    let query := if isQuery then some (findChar p.tail numberSign).1 else none
    match if isQuery then (findChar p.tail numberSign).2 else p with
    | [] => .ok { ranges with path := some path, query := query, fragment := none }
    | _ :: fragment => -- behind `#`
      if isChars fragment 0x3F then
        .ok { ranges with path := some path, query := query, fragment := some fragment }
      else
        .error (.parse (ascii "Fragment '" ++ fragment ++ ascii "' in '" ++ url ++
          ascii "' is invalid"))

/-- The first half of `parse_url`, up to the decoding. -/
def splitUrl (url : List UInt8) : Except UrlError UrlRanges :=
  if (findFirstOf url [colon, slash, questionMark, numberSign]).2 = [] then
    if isChars url 0x2F then .ok { path := some url } else .error (pathInvalid url url)
  else do
    let (scheme, b) ← splitScheme url
    let (ranges, b) ← splitHost url b
    splitPath url b { ranges with scheme := scheme }

/-- The key or the value at `b`, up to one of `q`, and the place found. -/
def readQuery (url name b q : List UInt8) : Except UrlError (List UInt8 × List UInt8) :=
  let (text, p) := findFirstOf b q
  if isChars text 0x3F then (decodePlus text).map (·, p)
  else
    .error (.parse (ascii "Query " ++ name ++ ascii " '" ++ text ++ ascii "' in '" ++ url ++
      ascii "' is invalid"))

/-- The value, if there is one at the place behind the key, and the place behind the entry. -/
def readVal (url : List UInt8) : (p : List UInt8) → Except UrlError (List UInt8 × List UInt8)
  | c :: b =>
    if c = equalSign then readQuery url (ascii "value") b [semicolon, ampersand]
    else .ok ([], c :: b)
  | [] => .ok ([], [])

/-- One round of the loop over the query: the entry at `b`, and the place behind it. -/
def readEntry (url b : List UInt8) : Except UrlError (KeyVal × List UInt8) :=
  match readQuery url (ascii "key") b [equalSign, semicolon, ampersand] with
  | .ok (key, p) => (readVal url p).map fun r => (⟨key, r.1⟩, r.2)
  | .error e => .error e

theorem length_readQuery {url name b q text p : List UInt8}
    (h : readQuery url name b q = .ok (text, p)) : p.length ≤ b.length := by
  have hle := (List.dropWhile_suffix (l := b) (!q.contains ·)).length_le
  rw [readQuery, findFirstOf] at h
  dsimp only at h
  split at h
  · cases hd : decodePlus (b.takeWhile (!q.contains ·)) with
    | error e =>
      rw [hd] at h
      cases h
    | ok k =>
      rw [hd] at h
      cases h
      exact hle
  · cases h

theorem length_readVal {url b text p : List UInt8} (h : readVal url b = .ok (text, p)) :
    p.length ≤ b.length := by
  cases b with
  | nil =>
    cases h
    exact Nat.le_refl _
  | cons c b =>
    rw [readVal] at h
    split at h
    · exact Nat.le_succ_of_le (length_readQuery h)
    · cases h
      exact Nat.le_refl _

theorem length_readEntry {url b p : List UInt8} {entry : KeyVal}
    (h : readEntry url b = .ok (entry, p)) : p.length ≤ b.length := by
  rw [readEntry] at h
  split at h
  · rename_i key p' hkey
    cases hval : readVal url p' with
    | error e =>
      rw [hval] at h
      cases h
    | ok r =>
      rw [hval] at h
      cases h
      exact Nat.le_trans (length_readVal hval) (length_readQuery hkey)
  · cases h

/-- The loop over the query from `b` on. -/
def parseQuery (url b : List UInt8) : Except UrlError (List KeyVal) :=
  match h : readEntry url b with
  | .error e => .error e
  | .ok (entry, []) => .ok [entry]
  | .ok (entry, _ :: b') =>
    have : b'.length < b.length := length_readEntry h
    (parseQuery url b').map (entry :: ·)
termination_by b.length

def decodeRange : Option (List UInt8) → Except UrlError (List UInt8)
  | some s => decode s
  | none => .ok []

def decodeHost (ipV : Int8) : Option (List UInt8) → Except UrlError (List UInt8)
  | some s => do
    let host ← decode s
    if ipV = 0 then .ok (normalizeRegName host)
    else if ipV = 6 then normalizeIPv6 host
    else .ok host
  | none => .ok []

def decodeQuery (url : List UInt8) : Option (List UInt8) → Except UrlError (List KeyVal)
  | some [] | none => .ok []
  | some query => parseQuery url query

/-- The second half of `parse_url`. -/
def decodeParts (url : List UInt8) (r : UrlRanges) : Except UrlError UrlParts := do
  let user ← decodeRange r.user
  let host ← decodeHost r.ipV r.host
  let path ← decodeRange r.path
  let query ← decodeQuery url r.query
  let fragment ← decodeRange r.fragment
  .ok
    { scheme := normalizeScheme (r.scheme.getD [])
      user := user
      host := host
      ipV := r.ipV
      port := r.port.getD []
      path := normalizePath path
      query := query
      fragment := fragment }

/-- What `parse_url` makes of a text. -/
def parseParts (url : List UInt8) : Except UrlError UrlParts :=
  if url = [] then .ok {}
  else if 8000 < url.length then .error (.parse (ascii "URI is longer than 8000 characters"))
  else splitUrl url >>= decodeParts url

/-! ## Building -/

def http : List UInt8 := [104, 116, 116, 112]

def https : List UInt8 := http ++ [115]

/-- Port 80 of `http` and port 443 of `https`. -/
def isDefaultPort (scheme port : List UInt8) : Bool :=
  scheme == http && port == [56, 48] || scheme == https && port == [52, 52, 51]

def schemeText (scheme : List UInt8) : List UInt8 :=
  if scheme = [] then [] else scheme ++ [colon]

def userText (user : List UInt8) : Except UrlError (List UInt8) :=
  if user = [] then .ok [] else (encode user 0x05).map (· ++ [atSign])

/-- `std::hex << (int)m_ip_v` -/
def versionText (ipV : Int8) : List UInt8 :=
  (Nat.toDigits 16 ipV.toInt32.toUInt32.toNat).map fun c => UInt8.ofNat c.toNat

def hostText (ipV : Int8) (host : List UInt8) : List UInt8 :=
  if ipV = 0 ∨ ipV = 4 then host
  else if ipV = 6 then openBracket :: (host ++ [closeBracket])
  else openBracket :: 118 :: (versionText ipV ++ dot :: (host ++ [closeBracket]))

def portText (scheme port : List UInt8) : List UInt8 :=
  if port = [] ∨ isDefaultPort scheme port then [] else colon :: port

def authorityText (u : UrlParts) : Except UrlError (List UInt8) :=
  if u.host ≠ [] then
    (userText u.user).map fun user =>
      slash :: slash :: (user ++ (hostText u.ipV u.host ++ portText u.scheme u.port))
  else if u.user ≠ [] then .error (.build (ascii "User info defined, but host is empty"))
  else if u.port ≠ [] then .error (.build (ascii "Port defined, but host is empty"))
  else if (findFirstOf u.path [colon, slash]).2.head? = some colon then
    .error (.build (ascii "The first segment of the relative path can't contain ':'"))
  else .ok []

def pathText (u : UrlParts) : Except UrlError (List UInt8) :=
  if u.path = [] then .ok []
  else if u.path.head? ≠ some slash ∧ u.host ≠ [] then
    .error (.build (ascii "Path must start with '/' when host is not empty"))
  else encode u.path 0x0F

def entryText (entry : KeyVal) : Except UrlError (List UInt8) :=
  match encodeQueryKey entry.key 0x1F with
  | .ok key =>
    if entry.val = [] then .ok key
    else (encodeQueryVal entry.val 0x1F).map fun val => key ++ equalSign :: val
  | .error e => .error e

/-- The entries behind the first one. -/
def entriesText : List KeyVal → Except UrlError (List UInt8)
  | [] => .ok []
  | entry :: query =>
    if entry.key = [] then .error (.build (ascii "A query entry has no key"))
    else
      match entryText entry with
      | .ok text => (entriesText query).map fun rest => ampersand :: (text ++ rest)
      | .error e => .error e

def queryText : List KeyVal → Except UrlError (List UInt8)
  | [] => .ok []
  | entry :: query =>
    if entry.key = [] then .error (.build (ascii "First query entry has no key"))
    else
      match entryText entry with
      | .ok text => (entriesText query).map fun rest => questionMark :: (text ++ rest)
      | .error e => .error e

def fragmentText (fragment : List UInt8) : Except UrlError (List UInt8) :=
  if fragment = [] then .ok [] else (encode fragment 0x1F).map (numberSign :: ·)

/-- What `build_url` makes of the parts. -/
def buildText (u : UrlParts) : Except UrlError (List UInt8) := do
  let authority ← authorityText u
  let path ← pathText u
  let query ← queryText u.query
  let fragment ← fragmentText u.fragment
  .ok (schemeText u.scheme ++ (authority ++ (path ++ (query ++ fragment))))

end SNet.Http.Url
