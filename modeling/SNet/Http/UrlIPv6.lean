import Mathlib.Logic.Function.Basic
import SNet.Http.UrlText
import SNet.Library.Memory

/-!
# IPv6 addresses in a url

`normalize_IPv6` splits a text at its colons, decodes the fields between them and writes them again
with the first longest run of zeros left out. It works on two arrays of fixed size; an access that
is not in one of them, or an index that goes below zero, is an error of its own in the model.
-/

namespace SNet.Http.Url

open Text

/-- What may be done that is not defined. -/
inductive Fault
  /-- An entry of `tokens` that is none of the 10, or was not written. -/
  | tokens
  /-- An entry of `fields` that is none of the 8. -/
  | fields
  /-- An index that is decremented at zero. -/
  | below
  /-- A character that is none of a string literal. -/
  | literal
  deriving DecidableEq, Repr

/-- What may come instead of a result: the exceptions, those of `stoi` too, and undefined
behaviour. -/
inductive UrlError
  | parse (reason : List UInt8)
  | build (reason : List UInt8)
  | outOfRange (reason : List UInt8)
  | stoi (error : StoiError)
  | undefined (fault : Fault)
  deriving DecidableEq, Repr

/-! ## Validity -/

/-- What `is_valid_ipv6` returns when the loop is at `p`; `b` is the start of the present field. -/
def validFields (s b : List UInt8) (nullField : Bool) (nfields ndigits : Nat) :
    (p : List UInt8) → Bool
  | [] =>
    if ndigits = 0 && s.getLast? == some colon then
      s.dropLast.getLast? == some colon && nfields < 8
    else
      let nfields := if 0 < ndigits then nfields + 1 else nfields
      !nullField && nfields == 8 || nullField && nfields < 8
  | c :: p =>
    if c = dot then
      (!nullField && nfields == 6 || nullField && nfields < 7) && isValidIpv4 b
    else if c = colon then
      if ndigits = 0 then !nullField && validFields s p true nfields ndigits p
      else validFields s p nullField (nfields + 1) 0 p
    else ndigits + 1 ≤ 4 && isHexdigit c && validFields s b nullField nfields (ndigits + 1) p

def isValidIpv6 (s : List UInt8) : Bool :=
  if 39 < s.length || s.length < 2 then false
  else
    match s with
    | c :: d :: p =>
      if c = colon then d == colon && (p.isEmpty || validFields s p true 0 0 p)
      else validFields s s false 0 0 s
    | _ => false

/-! ## The tokens -/

/-- An entry of the array `tokens` is written behind those that are there. -/
def pushToken (tokens : List (List UInt8)) (b : List UInt8) :
    Except UrlError (List (List UInt8)) :=
  if tokens.length < 10 then .ok (tokens ++ [b]) else .error (.undefined .tokens)

/-- The loop over the colons: the tokens, and the start of the last one, which is not among them. -/
def splitTokens (tokens : List (List UInt8)) (b : List UInt8) :
    (p : List UInt8) → Except UrlError (List (List UInt8) × List UInt8)
  | [] => .ok (tokens, b)
  | c :: p =>
    if c = colon then
      match pushToken tokens b with
      | .ok tokens => splitTokens tokens p p
      | .error e => .error e
    else splitTokens tokens b p

/-- The array `tokens` of the range from `p` on, without the end of the range. -/
def storeTokens (p : List UInt8) : Except UrlError (List (List UInt8)) :=
  match splitTokens [] p p with
  | .ok (tokens, b) => if tokens.length < 8 then pushToken tokens b else .ok tokens
  | .error e => .error e

def readToken (tokens : List (List UInt8)) (i : Nat) : Except UrlError (List UInt8) :=
  match tokens[i]? with
  | some t => .ok t
  | none => .error (.undefined .tokens)

/-! ## The fields -/

/-- `get_hex_digit(c)` in an expression of type `uint16_t`. -/
def hexField (c : UInt8) : UInt16 := (getHexDigit c).toInt16.toUInt16

/-- The rest of a field, up to the next token or a colon. -/
def readField (field : UInt16) (next : List UInt8) : (p : List UInt8) → UInt16
  | [] => field
  | c :: p =>
    if c :: p = next ∨ c = colon then field else readField (field <<< 4 ||| hexField c) next p

/-- The loop over the tokens: `null_pos` and the fields that are written. -/
def decodeFields (i nullPos : Nat) (fields : List UInt16) :
    (tokens : List (List UInt8)) → Except UrlError (Nat × List UInt16)
  | p :: next :: tokens =>
    match p with
    | [] => decodeFields (i + 1) i fields (next :: tokens)
    | c :: q =>
      if p = next ∨ c = colon then decodeFields (i + 1) i fields (next :: tokens)
      else if fields.length < 8 then
        decodeFields (i + 1) nullPos (fields ++ [readField (hexField c) next q]) (next :: tokens)
      else .error (.undefined .fields)
  | _ => .ok (nullPos, fields)

/-- `do fields[--last] = fields[--i]; while (i != null_pos);` -/
def moveFields (nullPos : Nat) (fields : Nat → UInt16) :
    (i last : Nat) → Except UrlError (Nat × (Nat → UInt16))
  | i + 1, last + 1 =>
    if i < 8 ∧ last < 8 then
      let fields := Function.update fields last (fields i)
      if i = nullPos then .ok (last, fields) else moveFields nullPos fields i last
    else .error (.undefined .fields)
  | _, _ => .error (.undefined .below)

/-- `do fields[--last] = 0; while (last != null_pos);` -/
def clearFields (nullPos : Nat) (fields : Nat → UInt16) :
    (last : Nat) → Except UrlError (Nat → UInt16)
  | last + 1 =>
    if last < 8 then
      let fields := Function.update fields last 0
      if last = nullPos then .ok fields else clearFields nullPos fields last
    else .error (.undefined .fields)
  | 0 => .error (.undefined .below)

/-- The fields with zeros for the ones that are left out. The entries behind those that were
decoded are not read before they are written. -/
def expandFields (nullPos nfields : Nat) (decoded : List UInt16) :
    Except UrlError (List UInt16) :=
  let i := decoded.length
  let fields := fun k => decoded.getD k 0
  if i < nfields then
    match if i ≠ nullPos then moveFields nullPos fields i nfields else .ok (nfields, fields) with
    | .ok (last, fields) =>
      match clearFields nullPos fields last with
      | .ok fields => .ok (Memory.slice fields 0 nfields)
      | .error e => .error e
    | .error e => .error e
  else .ok (decoded.take nfields)

/-! ## The first longest run of zeros -/

/-- The two inner loops, at index `i`: in the second one `first` is set. Gives `null_pos` and
`null_len`. -/
def locateZeros (i : Nat) (first : Option Nat) (nullPos nullLen : Nat) :
    (fields : List UInt16) → Nat × Nat
  | [] =>
    match first with
    | none => (nullPos, nullLen)
    | some first => if nullLen < i - first then (first, i - first) else (nullPos, nullLen)
  | f :: fields =>
    match first with
    | none => locateZeros (i + 1) (if f ≠ 0 then none else some i) nullPos nullLen fields
    | some first =>
      if f = 0 then locateZeros (i + 1) (some first) nullPos nullLen fields
      else if nullLen < i - first then locateZeros (i + 1) none first (i - first) fields
      else locateZeros (i + 1) none nullPos nullLen fields

/-- `str << std::hex << field` -/
def hexText (field : UInt16) : List UInt8 :=
  (Nat.toDigits 16 field.toNat).map fun c => UInt8.ofNat c.toNat

/-- `str << ':' << field` for each field. -/
def hexFields (fields : List UInt16) : List UInt8 := fields.flatMap fun f => colon :: hexText f

/-- What is written up to the zeros that are left out, and the index behind them. -/
def encodeFront (fields : List UInt16) (nullPos nullLen : Nat) : List UInt8 × Nat :=
  if nullPos = 0 then ([colon], nullLen)
  else
    let str := hexText (fields.getD 0 0) ++ hexFields ((fields.take nullPos).drop 1)
    let str := if nullPos < fields.length then str ++ [colon] else str
    let i := nullPos + nullLen
    (if i = 8 ∧ nullLen ≠ 0 then str ++ [colon] else str, i)

def appendIpv4 (str : List UInt8) : (ipv4 : Option (List UInt8)) → List UInt8
  | some text => str ++ colon :: text
  | none => str

/-- The text that is written for the fields, and for an IPv4 address behind them. -/
def encodeFields (fields : List UInt16) (ipv4 : Option (List UInt8)) : List UInt8 :=
  let best := locateZeros 0 none fields.length 0 fields
  let best := if best.2 = 1 then (fields.length, 1) else best
  let front := encodeFront fields best.1 best.2
  appendIpv4 (front.1 ++ hexFields (fields.drop front.2)) ipv4

/-! ## Normalization -/

/-- `normalize_IPv6(s, e)` -/
def normalizeIPv6 (s : List UInt8) : Except UrlError (List UInt8) :=
  if !isIpv6 s then .error (.parse (ascii "IPv6 [" ++ s ++ ascii "] is invalid"))
  else if s = [colon, colon] then .ok s
  else do
    let p := if s.head? = some colon then s.tail else s
    let p := if s.getLast? = some colon then p.dropLast else p
    let tokens ← storeTokens p
    let ntokens := tokens.length
    let tokens ← pushToken tokens []
    let last ← readToken tokens (ntokens - 1)
    let stop ← readToken tokens ntokens
    -- every text of more than five characters is taken for an IPv4 address
    let ipv4 := if 5 < last.length - stop.length then some (last.take (last.length - stop.length))
      else none
    let ntokens := if ipv4.isSome then ntokens - 1 else ntokens
    let (nullPos, fields) ← decodeFields 0 8 [] (tokens.take (ntokens + 1))
    let fields ← expandFields nullPos (if ipv4.isSome then 6 else 8) fields
    .ok (encodeFields fields ipv4)

end SNet.Http.Url
