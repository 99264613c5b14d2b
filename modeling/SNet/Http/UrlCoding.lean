import SNet.Http.UrlIPv6

/-!
# Percent encoding

`decode` and `decode_plus` differ in what they do with a plus sign, `encode`, `encode_query_key` and
`encode_query_val` in the characters that they write in a way of their own. A `char` is signed, so
the hexadecimal digits of a byte from 128 on are looked up at a negative index.
-/

namespace SNet.Http.Url

def space : UInt8 := 32

/-! ## Decoding -/

def invalidEncoding : UrlError := .parse (ascii "Invalid percent encoding")

/-- The loop of `decode` and of `decode_plus`; `plain` is what is made of a character without a
percent sign. -/
def decodeChars (plain : UInt8 → UInt8) : List UInt8 → Except UrlError (List UInt8)
  | [] => .ok []
  | c :: s =>
    if c = percent then
      match s with
      | a :: b :: s =>
        if getHexDigit a < 0 ∨ getHexDigit b < 0 then .error invalidEncoding
        else
          (decodeChars plain s).map
            (((getHexDigit a).toUInt8 <<< 4 ||| (getHexDigit b).toUInt8) :: ·)
      | _ => .error invalidEncoding
    else (decodeChars plain s).map (plain c :: ·)

def decode (s : List UInt8) : Except UrlError (List UInt8) := decodeChars id s

def plusToSpace (c : UInt8) : UInt8 := if c = plusSign then space else c

def decodePlus (s : List UInt8) : Except UrlError (List UInt8) := decodeChars plusToSpace s

/-! ## Encoding -/

/-- `"0123456789ABCDEF"[i]` -/
def hexDigitAt (i : Int) : Except UrlError UInt8 :=
  if 0 ≤ i then
    match ([48, 49, 50, 51, 52, 53, 54, 55, 56, 57, 65, 66, 67, 68, 69, 70, 0] :
      List UInt8)[i.toNat]? with
    | some d => .ok d
    | none => .error (.undefined .literal)
  else .error (.undefined .literal)

/-- `'%' << "0123456789ABCDEF"[c >> 4] << "0123456789ABCDEF"[c & 0xF]` -/
def percentEncode (c : UInt8) : Except UrlError (List UInt8) :=
  match hexDigitAt (c.toInt8 >>> 4).toInt, hexDigitAt (c &&& 0xF).toNat with
  | .ok a, .ok b => .ok [percent, a, b]
  | .error e, _ => .error e
  | _, .error e => .error e

/-- What is written for a character; `special` are those that are written in a way of their own. -/
def encodeChar (special : UInt8 → Option (List UInt8)) (mask c : UInt8) :
    Except UrlError (List UInt8) :=
  match special c with
  | some text => .ok text
  | none => if isChar c mask then .ok [c] else percentEncode c

def encodeChars (special : UInt8 → Option (List UInt8)) (mask : UInt8) :
    List UInt8 → Except UrlError (List UInt8)
  | [] => .ok []
  | c :: s =>
    match encodeChar special mask c with
    | .ok text => (encodeChars special mask s).map (text ++ ·)
    | .error e => .error e

def encode (s : List UInt8) (mask : UInt8) : Except UrlError (List UInt8) :=
  encodeChars (fun _ => none) mask s

/-- A space is written as `+`, and `+`, `&` and `;` are always encoded. -/
def valSpecial (c : UInt8) : Option (List UInt8) :=
  if c = space then some [plusSign]
  else if c = plusSign then some [percent, 50, 66]
  else if c = ampersand then some [percent, 50, 54]
  else if c = semicolon then some [percent, 51, 66]
  else none

/-- In a key an equals sign is encoded too. -/
def keySpecial (c : UInt8) : Option (List UInt8) :=
  if c = equalSign then some [percent, 51, 68] else valSpecial c

def encodeQueryKey (s : List UInt8) (mask : UInt8) : Except UrlError (List UInt8) :=
  encodeChars keySpecial mask s

def encodeQueryVal (s : List UInt8) (mask : UInt8) : Except UrlError (List UInt8) :=
  encodeChars valSpecial mask s

end SNet.Http.Url
