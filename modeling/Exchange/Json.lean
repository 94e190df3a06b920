import Exchange.Types

/-! The JSON values of `json.hpp` and the writer and parser of `json.cpp`. The
parser reads the text that is left, so a position in the source is a suffix
here; it throws where the source throws and, like the source, it does not ask
whether anything follows the value. The conversions of the standard library it
calls (`stoi`, `stoll`, `stod`, `%.17g`) are written out, with the inputs they
tolerate. -/
namespace Exchange

/-- The byte of an ASCII character. -/
def byte (c : Char) : UInt8 := c.toUInt8

/-! ## Binary64 numbers -/

/-- The mantissa and exponent of a finite binary64 number in its one normal form. -/
def Canonical (mantissa : Nat) (exponent : Int) : Prop :=
  mantissa < 2 ^ 53 ∧ -1074 ≤ exponent ∧ exponent ≤ 971 ∧ (2 ^ 52 ≤ mantissa ∨ exponent = -1074)

instance (mantissa : Nat) (exponent : Int) : Decidable (Canonical mantissa exponent) :=
  inferInstanceAs (Decidable (_ ∧ _))

/-- A finite `double`: `mantissa * 2 ^ exponent`, with its sign. -/
structure Binary64 where
  negative : Bool
  mantissa : Nat
  exponent : Int
  canonical : Canonical mantissa exponent
  deriving DecidableEq

namespace Binary64

/-- A positive ratio times a power of the base, as a ratio. -/
def scale (base numerator denominator : Nat) (power : Int) : Nat × Nat :=
  if 0 ≤ power then (numerator * base ^ power.toNat, denominator)
  else (numerator, denominator * base ^ (-power).toNat)

/-- Division to the nearest integer, ties to even. -/
def roundHalfEven (numerator denominator : Nat) : Nat :=
  let quotient := numerator / denominator
  let twice := 2 * (numerator % denominator)
  if denominator < twice ∨ (twice = denominator ∧ quotient % 2 = 1) then quotient + 1 else quotient

/-- `⌊log₂ (numerator / denominator)⌋` of a positive ratio. -/
def ratioLog2 (numerator denominator : Nat) : Int :=
  let guess : Int := (Nat.log2 numerator : Int) - Nat.log2 denominator
  let (low, high) := scale 2 1 1 guess
  if numerator * high < denominator * low then guess - 1 else guess

/-- The nearest binary64 number; `none` is a range error. An inexact result is
one too if it is below the normal range even when rounded to all its digits. -/
def ofRatio (negative : Bool) (numerator denominator : Nat) : Option Binary64 :=
  if numerator = 0 then some ⟨negative, 0, -1074, by decide⟩
  else
    let exponent := max (ratioLog2 numerator denominator - 52) (-1074)
    let (top, bottom) := scale 2 numerator denominator (-exponent)
    let rounded := roundHalfEven top bottom
    let (mantissa, exponent) := if rounded = 2 ^ 53 then (2 ^ 52, exponent + 1) else (rounded, exponent)
    if roundHalfEven (2 * top) bottom < 2 ^ 53 ∧ top % bottom ≠ 0 then none
    else if normal : Canonical mantissa exponent then some ⟨negative, mantissa, exponent, normal⟩
    else none

/-- `static_cast<long long>`: the fraction is cut off. The cast of a value that
then does not fit is undefined; the conversion instruction gives the least word. -/
def toInt64 (value : Binary64) : Int64 :=
  let (top, bottom) := scale 2 value.mantissa 1 value.exponent
  let whole : Int := if value.negative then -(top / bottom : Nat) else (top / bottom : Nat)
  if -2 ^ 63 ≤ whole ∧ whole < 2 ^ 63 then Int64.ofInt whole else Int64.minValue

end Binary64

/-! ## Numbers as text -/

def isDigit (c : UInt8) : Bool := byte '0' ≤ c && c ≤ byte '9'

def digitValue (c : UInt8) : Nat := c.toNat - (byte '0').toNat

/-- The value of a run of decimal digits. -/
def decimalValue (digits : Bytes) : Nat :=
  digits.foldl (fun value c => value * 10 + digitValue c) 0

def digitByte (digit : Nat) : UInt8 := byte '0' + UInt8.ofNat digit

/-- The digits of a number, at most `fuel` of them. -/
def decimalDigits : Nat → Nat → Bytes
  | 0, _ => []
  | fuel + 1, value =>
    if value < 10 then [digitByte value]
    else decimalDigits fuel (value / 10) ++ [digitByte (value % 10)]

/-- `std::to_string` of a non-negative number. -/
def decimal (value : Nat) : Bytes := decimalDigits (value + 1) value

/-- `std::to_string(long long)`. -/
def integerText (value : Int64) : Bytes :=
  if value.toInt < 0 then byte '-' :: decimal value.toInt.natAbs else decimal value.toInt.natAbs

def hexDigit (digit : Nat) : UInt8 :=
  if digit < 10 then digitByte digit else byte 'a' + UInt8.ofNat (digit - 10)

/-- `%0*x`, for a value that fits the width. -/
def paddedHex (width value : Nat) : Bytes :=
  ((List.range width).map fun place => hexDigit (value / 16 ^ place % 16)).reverse

/-- The exponent of the leading decimal digit of a positive ratio. -/
def ratioLog10 (numerator denominator : Nat) : Int :=
  if denominator ≤ numerator then ((decimal (numerator / denominator)).length : Int) - 1
  else -(((List.range 400).find? fun place => denominator ≤ numerator * 10 ^ place).getD 0 : Int)

/-- `%.17g`: seventeen significant digits, without trailing zeros. -/
def Binary64.text (value : Binary64) : Bytes :=
  let sign := if value.negative then [byte '-'] else []
  if value.mantissa = 0 then sign ++ [byte '0']
  else
    let (top, bottom) := scale 2 value.mantissa 1 value.exponent
    let leading := ratioLog10 top bottom
    let (top, bottom) := scale 10 top bottom (16 - leading)
    let rounded := roundHalfEven top bottom
    let (digits, leading) :=
      if rounded = 10 ^ 17 then (decimal (10 ^ 16), leading + 1) else (decimal rounded, leading)
    let stripped := (digits.reverse.dropWhile (· = byte '0')).reverse
    let point (whole fraction : Bytes) :=
      if fraction = [] then whole else whole ++ byte '.' :: fraction
    if leading < -4 ∨ 17 ≤ leading then
      let power := decimal leading.natAbs
      sign ++ point (stripped.take 1) (stripped.drop 1) ++
        [byte 'e', if leading < 0 then byte '-' else byte '+'] ++
        (if power.length < 2 then byte '0' :: power else power)
    else if leading < 0 then
      sign ++ point [byte '0'] (List.replicate (leading.natAbs - 1) (byte '0') ++ stripped)
    else
      let whole := leading.toNat + 1
      sign ++ point (digits.take whole) (stripped.drop whole)

/-! ## The standard conversions -/

/-- What a parse throws: the parser's own message, or an exception of the
standard conversion it called. -/
inductive JsonError where
  | parse (message : Bytes)
  | invalidArgument (function : Bytes)
  | outOfRange (function : Bytes)
  | outOfFuel
  deriving DecidableEq

/-- `std::isspace` in the default locale. -/
def isSpace (c : UInt8) : Bool := c = byte ' ' || (9 ≤ c && c ≤ 13)

def isHexDigit (c : UInt8) : Bool :=
  isDigit c || (byte 'a' ≤ c && c ≤ byte 'f') || (byte 'A' ≤ c && c ≤ byte 'F')

def hexValue (c : UInt8) : Nat :=
  if isDigit c then digitValue c
  else if byte 'a' ≤ c then c.toNat - (byte 'a').toNat + 10
  else c.toNat - (byte 'A').toNat + 10

/-- A sign, if one is there. -/
def takeSign (text : Bytes) : Bool × Bytes :=
  match text with
  | c :: rest => if c = byte '-' then (true, rest) else if c = byte '+' then (false, rest) else (false, text)
  | [] => (false, text)

/-- A `0x` that digits follow. -/
def dropHexPrefix (text : Bytes) : Bytes :=
  match text with
  | zero :: x :: digit :: rest =>
    if zero = byte '0' ∧ (x = byte 'x' ∨ x = byte 'X') ∧ isHexDigit digit then digit :: rest else text
  | _ => text

/-- `strtol` and `strtoul` in base sixteen: blanks, a sign and `0x` are passed
over, and the digits end at the first other byte. `none` if there are none. -/
def scanHex (text : Bytes) : Option (Bool × Nat) :=
  let (negative, text) := takeSign (text.dropWhile isSpace)
  let digits := (dropHexPrefix text).takeWhile isHexDigit
  if digits = [] then none
  else some (negative, digits.foldl (fun value c => value * 16 + hexValue c) 0)

/-- `std::stoi(text, nullptr, 16)` on four bytes, which cannot overflow. -/
def stoi16 (text : Bytes) : Except JsonError Int :=
  match scanHex text with
  | none => .error (.invalidArgument (ascii "stoi"))
  | some (negative, value) => .ok (if negative then -value else value)

/-- `std::stoll` on an optional minus sign and digits. -/
def stoll (negative : Bool) (digits : Bytes) : Except JsonError Int64 :=
  if digits = [] then .error (.invalidArgument (ascii "stoll"))
  else
    let value : Int := if negative then -decimalValue digits else decimalValue digits
    if -2 ^ 63 ≤ value ∧ value < 2 ^ 63 then .ok (Int64.ofInt value)
    else .error (.outOfRange (ascii "stoll"))

/-- The longest run of such bytes, and what follows it. -/
def splitWhile (keep : UInt8 → Bool) (text : Bytes) : Bytes × Bytes :=
  (text.takeWhile keep, text.dropWhile keep)

/-- `std::stod` on a token of digits, signs, points and exponent marks: the
longest number at its front. -/
def stod (token : Bytes) : Except JsonError Binary64 :=
  let (negative, text) := takeSign token
  let (whole, text) := splitWhile isDigit text
  let (fraction, text) := match text with
    | c :: rest => if c = byte '.' then splitWhile isDigit rest else ([], text)
    | [] => ([], text)
  if whole ++ fraction = [] then .error (.invalidArgument (ascii "stod"))
  else
    let power : Int := match text with
      | c :: rest =>
        if c = byte 'e' ∨ c = byte 'E' then
          let (down, digits) := takeSign rest
          let value : Int := decimalValue (digits.takeWhile isDigit)
          if down then -value else value
        else 0
      | [] => 0
    let (top, bottom) := Binary64.scale 10 (decimalValue (whole ++ fraction)) 1 (power - fraction.length)
    match Binary64.ofRatio negative top bottom with
    | some value => .ok value
    | none => .error (.outOfRange (ascii "stod"))

/-! ## Values -/

inductive Json where
  | null
  | bool (value : Bool)
  | int (value : Int64)
  | double (value : Binary64)
  | string (value : Bytes)
  | array (items : List Json)
  | object (members : List (Bytes × Json))

namespace Json

def isObject : Json → Bool
  | .object _ => true
  | _ => false

/-- The elements; no other value has any. -/
def arrayValue : Json → List Json
  | .array items => items
  | _ => []

def isArray : Json → Bool
  | .array _ => true
  | _ => false

/-- `find`: the first member with the key. -/
def find (key : Bytes) : Json → Option Json
  | .object members => members.lookup key
  | _ => none

/-- `as_int`: zero unless the value is a number. -/
def asInt : Json → Int64
  | .int value => value
  | .double value => value.toInt64
  | _ => 0

def asString : Json → Bytes
  | .string value => value
  | _ => []

/-! ## Writing -/

/-- What `dump_string` writes for one byte. -/
def escape (c : UInt8) : Bytes :=
  if c = byte '"' then ascii "\\\""
  else if c = byte '\\' then ascii "\\\\"
  else if c = byte '\n' then ascii "\\n"
  else if c = byte '\r' then ascii "\\r"
  else if c = byte '\t' then ascii "\\t"
  else if c = 8 then ascii "\\b"
  else if c = 12 then ascii "\\f"
  else if c < 0x20 then ascii "\\u" ++ paddedHex 4 c.toNat
  else [c]

def dumpString (text : Bytes) : Bytes := byte '"' :: (text.flatMap escape ++ [byte '"'])

mutual

/-- `dump_value`. -/
def dump : Json → Bytes
  | .null => ascii "null"
  | .bool value => if value then ascii "true" else ascii "false"
  | .int value => integerText value
  | .double value => value.text
  | .string value => dumpString value
  | .array items => byte '[' :: (dumpItems items ++ [byte ']'])
  | .object members => byte '\x7b' :: (dumpMembers members ++ [byte '\x7d'])

def dumpItems : List Json → Bytes
  | [] => []
  | [item] => dump item
  | item :: rest => dump item ++ byte ',' :: dumpItems rest

def dumpMembers : List (Bytes × Json) → Bytes
  | [] => []
  | [(key, value)] => dumpString key ++ byte ':' :: dump value
  | (key, value) :: rest => dumpString key ++ byte ':' :: dump value ++ byte ',' :: dumpMembers rest

end

/-! ## Parsing -/

def fail {α : Type} (message : String) : Except JsonError α :=
  .error (.parse (ascii "json parse error: " ++ ascii message))

def isWs (c : UInt8) : Bool := c = byte ' ' || c = byte '\t' || c = byte '\n' || c = byte '\r'

def skipWs (text : Bytes) : Bytes := text.dropWhile isWs

/-- The bytes a `\u` escape stands for. A negative code, which `stoi` accepts,
is cut to its low byte. -/
def codeBytes (code : Int) : Bytes :=
  if code < 0x80 then [UInt8.ofInt code]
  else if code < 0x800 then [0xC0 ||| UInt8.ofInt (code / 64), 0x80 ||| UInt8.ofInt (code % 64)]
  else [0xE0 ||| UInt8.ofInt (code / 4096), 0x80 ||| UInt8.ofInt (code / 64 % 64),
    0x80 ||| UInt8.ofInt (code % 64)]

/-- The escapes of one letter. -/
def unescape (e : UInt8) : Option UInt8 :=
  if e = byte '"' then some (byte '"')
  else if e = byte '\\' then some (byte '\\')
  else if e = byte '/' then some (byte '/')
  else if e = byte 'n' then some (byte '\n')
  else if e = byte 'r' then some (byte '\r')
  else if e = byte 't' then some (byte '\t')
  else if e = byte 'b' then some 8
  else if e = byte 'f' then some 12
  else none

/-- `parse_raw_string`, after the opening quote. -/
def parseRawString (out : Bytes) : Bytes → Except JsonError (Bytes × Bytes)
  | [] => fail "unterminated string"
  | c :: rest =>
    if c = byte '"' then .ok (out, rest)
    else if c = byte '\\' then
      match rest with
      | [] => fail "bad escape"
      | e :: rest =>
        if e = byte 'u' then
          match rest with
          | d₁ :: d₂ :: d₃ :: d₄ :: rest => do
            let code ← stoi16 [d₁, d₂, d₃, d₄]
            parseRawString (out ++ codeBytes code) rest
          | _ => fail "bad unicode escape"
        else
          match unescape e with
          | some c => parseRawString (out ++ [c]) rest
          | none => fail "unknown escape"
    else parseRawString (out ++ [c]) rest

/-- A literal at the front of the text. -/
def takeLiteral (literal : String) (text : Bytes) : Option Bytes :=
  if ascii literal <+: text then some (text.drop literal.length) else none

def parseBool (text : Bytes) : Except JsonError (Json × Bytes) :=
  match takeLiteral "true" text with
  | some rest => .ok (.bool true, rest)
  | none =>
    match takeLiteral "false" text with
    | some rest => .ok (.bool false, rest)
    | none => fail "invalid literal"

def parseNull (text : Bytes) : Except JsonError (Json × Bytes) :=
  match takeLiteral "null" text with
  | some rest => .ok (.null, rest)
  | none => fail "invalid literal"

/-- The bytes besides digits that a number token may hold. -/
def isNumberMark (c : UInt8) : Bool :=
  c = byte '.' || c = byte 'e' || c = byte 'E' || c = byte '+' || c = byte '-'

/-- `parse_number`; any mark after the first byte's sign makes it a double. -/
def parseNumber (text : Bytes) : Except JsonError (Json × Bytes) :=
  let negative : Bool := text.head? = some (byte '-')
  let body := if negative then text.drop 1 else text
  let (token, rest) := splitWhile (fun c => isDigit c || isNumberMark c) body
  if !negative && token.isEmpty then fail "invalid number"
  else if token.any isNumberMark then do
    let value ← stod (if negative then byte '-' :: token else token)
    .ok (.double value, rest)
  else do
    let value ← stoll negative token
    .ok (.int value, rest)

mutual

/-- `parse_value`. A call inside another one starts at a later byte, except that
an array's loop starts where its element does, so twice the length of the text
bounds the depth of the calls. -/
def parseValue : Nat → Bytes → Except JsonError (Json × Bytes)
  | 0, _ => .error .outOfFuel
  | fuel + 1, text =>
    match skipWs text with
    | [] => fail "unexpected end"
    | c :: rest =>
      if c = byte '\x7b' then
        match skipWs rest with
        | [] => fail "unexpected end"
        | d :: after => if d = byte '\x7d' then .ok (.object [], after) else parseMembers fuel [] (d :: after)
      else if c = byte '[' then
        match skipWs rest with
        | [] => fail "unexpected end"
        | d :: after => if d = byte ']' then .ok (.array [], after) else parseItems fuel [] (d :: after)
      else if c = byte '"' then do
        let (value, rest) ← parseRawString [] rest
        .ok (.string value, rest)
      else if c = byte 't' ∨ c = byte 'f' then parseBool (c :: rest)
      else if c = byte 'n' then parseNull (c :: rest)
      else parseNumber (c :: rest)

/-- The loop of `parse_object`, with the members read so far. -/
def parseMembers : Nat → List (Bytes × Json) → Bytes → Except JsonError (Json × Bytes)
  | 0, _, _ => .error .outOfFuel
  | fuel + 1, members, text =>
    match skipWs text with
    | [] => fail "unexpected end"
    | c :: rest =>
      if c ≠ byte '"' then fail "expected object key"
      else do
        let (key, rest) ← parseRawString [] rest
        match skipWs rest with
        | [] => fail "unexpected end"
        | c :: rest =>
          if c ≠ byte ':' then fail "expected ':'"
          else do
            let (value, rest) ← parseValue fuel rest
            match skipWs rest with
            | [] => fail "unexpected end"
            | c :: rest =>
              if c = byte ',' then parseMembers fuel (members ++ [(key, value)]) rest
              else if c = byte '\x7d' then .ok (.object (members ++ [(key, value)]), rest)
              else fail "expected ',' or '\x7d'"

/-- The loop of `parse_array`, with the elements read so far. -/
def parseItems : Nat → List Json → Bytes → Except JsonError (Json × Bytes)
  | 0, _, _ => .error .outOfFuel
  | fuel + 1, items, text => do
    let (value, rest) ← parseValue fuel text
    match skipWs rest with
    | [] => fail "unexpected end"
    | c :: rest =>
      if c = byte ',' then parseItems fuel (items ++ [value]) rest
      else if c = byte ']' then .ok (.array (items ++ [value]), rest)
      else fail "expected ',' or ']'"

end

/-- `Json::parse`: one value; what follows it is not looked at. -/
def parse (text : Bytes) : Except JsonError Json := do
  let (value, _) ← parseValue (2 * text.length + 1) text
  .ok value

end Json
end Exchange
