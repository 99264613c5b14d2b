import SNet.Library.Text

/-!
# The characters of a url

The table of character classes, the predicates on ranges of characters and the searches that
`HttpUrl` is made of. A range of characters is the list of them, and a pointer into a range is what
the range has from there on. Characters are bytes; a `char` is signed.
-/

namespace SNet.Http.Url

open Text

def tbl : List UInt8 :=
  [0, 0, 0, 0, 0, 0, 0, 0, 0, 0, 0, 0, 0, 0, 0, 0, 0, 0, 0, 0, 0, 0, 0, 0, 0, 0, 0, 0, 0, 0, 0, 0,
   0x00, 0x01, 0x00, 0x00, 0x01, 0x20, 0x01, 0x01, -- SP ! " #  $ % & '
   0x01, 0x01, 0x01, 0x01, 0x01, 0x01, 0x01, 0x08, -- ( ) * +  , - . /
   0x01, 0x01, 0x01, 0x01, 0x01, 0x01, 0x01, 0x01, -- 0 1 2 3  4 5 6 7
   0x01, 0x01, 0x04, 0x01, 0x00, 0x01, 0x00, 0x10, -- 8 9 : ;  < = > ?
   0x02, 0x01, 0x01, 0x01, 0x01, 0x01, 0x01, 0x01, -- @ A B C  D E F G
   0x01, 0x01, 0x01, 0x01, 0x01, 0x01, 0x01, 0x01, -- H I J K  L M N O
   0x01, 0x01, 0x01, 0x01, 0x01, 0x01, 0x01, 0x01, -- P Q R S  T U V W
   0x01, 0x01, 0x01, 0x00, 0x00, 0x00, 0x00, 0x01, -- X Y Z [  \ ] ^ _
   0x00, 0x01, 0x01, 0x01, 0x01, 0x01, 0x01, 0x01, -- ` a b c  d e f g
   0x01, 0x01, 0x01, 0x01, 0x01, 0x01, 0x01, 0x01, -- h i j k  l m n o
   0x01, 0x01, 0x01, 0x01, 0x01, 0x01, 0x01, 0x01, -- p q r s  t u v w
   0x01, 0x01, 0x01, 0x00, 0x00, 0x00, 0x01, 0x00] ++ -- x y z {  | } ~ DEL
  List.replicate 128 0

def percent : UInt8 := 37
def plusSign : UInt8 := 43
def minusSign : UInt8 := 45
def dot : UInt8 := 46
def slash : UInt8 := 47
def colon : UInt8 := 58
def semicolon : UInt8 := 59
def equalSign : UInt8 := 61
def questionMark : UInt8 := 63
def atSign : UInt8 := 64
def openBracket : UInt8 := 91
def closeBracket : UInt8 := 93
def ampersand : UInt8 := 38
def numberSign : UInt8 := 35

def isChar (c mask : UInt8) : Bool := tbl.getD c.toNat 0 &&& mask != 0

def isChars (s : List UInt8) (mask : UInt8) : Bool := s.all (isChar · mask)

def isAlpha (c : UInt8) : Bool := 65 ≤ c && c ≤ 90 || 97 ≤ c && c ≤ 122

def isNum (c : UInt8) : Bool := isDigit c

def isAlnum (c : UInt8) : Bool := isAlpha c || isNum c

def isHexdigit (c : UInt8) : Bool := isNum c || (65 ≤ c && c ≤ 70) || (97 ≤ c && c ≤ 102)

/-- The loop of `is_uint` over the digits: the value and what follows them. -/
def accumulate (val : UInt32) : List UInt8 → UInt32 × List UInt8
  | [] => (val, [])
  | c :: t => if isNum c then accumulate (val * 10 + (c - 48).toUInt32) t else (val, c :: t)

/-- `is_uint(s, e, max)`: what `s` is moved on to, if it returns true. -/
def isUint (s : List UInt8) (max : UInt32) : Option (List UInt8) :=
  match s with
  | [] => none
  | c :: t =>
    if !isNum c then none
    else
      let val := (c - 48).toUInt32
      let (val, t) := if val ≠ 0 then accumulate val t else (val, t)
      if max < val then none else some t

def getHexDigit (c : UInt8) : Int8 :=
  if isNum c then (c - 48).toInt8
  else if 65 ≤ c && c ≤ 70 then (c - 65 + 10).toInt8
  else if 97 ≤ c && c ≤ 102 then (c - 97 + 10).toInt8
  else -1

/-- The body of the loop of `to_lower`. -/
def lower (c : UInt8) : UInt8 := if 65 ≤ c && c ≤ 90 then c ||| 0x20 else c

def toLower (s : List UInt8) : List UInt8 := s.map lower

/-- `find_first_of(s, e, q)`: what is in front of the place found, and what is from there on. -/
def findFirstOf (s q : List UInt8) : List UInt8 × List UInt8 :=
  (s.takeWhile (!q.contains ·), s.dropWhile (!q.contains ·))

/-- `find_char(s, e, c)`, likewise. -/
def findChar (s : List UInt8) (c : UInt8) : List UInt8 × List UInt8 :=
  (s.takeWhile (· ≠ c), s.dropWhile (· ≠ c))

def isScheme : List UInt8 → Bool
  | [] => false
  | c :: s => isAlpha c && s.all fun c => isAlnum c || c == plusSign || c == minusSign || c == dot

def normalizeScheme (s : List UInt8) : List UInt8 := toLower s

def isIpv4 (s : List UInt8) : Bool :=
  7 ≤ s.length && s.length ≤ 254 && s.all fun c => c == dot || isNum c

/-- `s != e && *s++ == c` -/
def eat (c : UInt8) : List UInt8 → Option (List UInt8)
  | [] => none
  | d :: s => if d = c then some s else none

def isValidIpv4 (s : List UInt8) : Bool :=
  (do
    let s ← isUint s 255
    let s ← eat dot s
    let s ← isUint s 255
    let s ← eat dot s
    let s ← isUint s 255
    let s ← eat dot s
    isUint s 255) == some []

def isRegName (s : List UInt8) : Bool := isChars s 0x01

def normalizeRegName (s : List UInt8) : List UInt8 := toLower s

def isIpv6 (s : List UInt8) : Bool :=
  2 ≤ s.length && s.length ≤ 254 && s.all fun c => c == colon || c == dot || isHexdigit c

def isPort (s : List UInt8) : Bool := isUint s 65535 == some []

end SNet.Http.Url
