import TablePlan.Json.Basic
import TablePlan.Decimal.Reading

/-!
# Reading documents

Every reader takes the characters that are left and returns what it read with the characters
after it, or nothing if the text is not well formed. Arrays and objects nest to a fixed depth,
which is what the recursion runs on.

An integer is kept exactly if it fits a signed or unsigned word of 64 bits. Any other number is
the double got from its first digits, as many as fit a word, scaled by a power of ten.
-/

namespace TablePlan.Json

/-- Nesting beyond this depth is refused. -/
def depthLimit : Nat := 128

/-- The largest number that digits are collected to exactly. -/
def wordMax : Nat := UInt64.size - 1

/-- Blank space between the tokens of a document. -/
def isSpace (c : Char) : Bool :=
  c == ' ' || c == '\t' || c == '\n' || c == '\r'

/-- The characters after leading blank space. -/
def skipSpace (cs : List Char) : List Char :=
  cs.dropWhile isSpace

/-- The value of a hexadecimal digit. -/
def hexValue? (c : Char) : Option Nat :=
  if '0' ≤ c ∧ c ≤ '9' then some (c.toNat - '0'.toNat)
  else if 'a' ≤ c ∧ c ≤ 'f' then some (c.toNat - 'a'.toNat + 10)
  else if 'A' ≤ c ∧ c ≤ 'F' then some (c.toNat - 'A'.toNat + 10)
  else none

/-- Four hexadecimal digits. -/
def hexQuad? : List Char → Option (Nat × List Char)
  | a :: b :: c :: d :: rest => do
    let a ← hexValue? a
    let b ← hexValue? b
    let c ← hexValue? c
    let d ← hexValue? d
    some (((a * 16 + b) * 16 + c) * 16 + d, rest)
  | _ => none

/-- The character after the `u` of an escape, which is written as two units if it lies beyond the
basic plane. A unit of such a pair does not stand alone. -/
def unicodeEscape? (cs : List Char) : Option (Char × List Char) := do
  let (unit, rest) ← hexQuad? cs
  if 0xDC00 ≤ unit ∧ unit ≤ 0xDFFF then none
  else if 0xD800 ≤ unit ∧ unit ≤ 0xDBFF then
    match rest with
    | '\\' :: 'u' :: rest => do
      let (low, rest) ← hexQuad? rest
      if 0xDC00 ≤ low ∧ low ≤ 0xDFFF then
        some (Char.ofNat (0x10000 + (unit - 0xD800) * 0x400 + (low - 0xDC00)), rest)
      else none
    | _ => none
  else some (Char.ofNat unit, rest)

/-- The character after the backslash of an escape. -/
def escaped? : List Char → Option (Char × List Char)
  | '"' :: rest => some ('"', rest)
  | '\\' :: rest => some ('\\', rest)
  | '/' :: rest => some ('/', rest)
  | 'b' :: rest => some ('\x08', rest)
  | 'f' :: rest => some ('\x0c', rest)
  | 'n' :: rest => some ('\n', rest)
  | 'r' :: rest => some ('\r', rest)
  | 't' :: rest => some ('\t', rest)
  | 'u' :: rest => unicodeEscape? rest
  | _ => none

/-- The characters up to the closing quote, of which there are at most `fuel`. -/
def stringBody? : Nat → List Char → Option (List Char × List Char)
  | 0, _ => none
  | _, [] => none
  | fuel + 1, c :: rest =>
    if c = '"' then some ([], rest)
    else if c = '\\' then do
      let (c, rest) ← escaped? rest
      let (body, rest) ← stringBody? fuel rest
      some (c :: body, rest)
    else if c.toNat < 32 then none
    else do
      let (body, rest) ← stringBody? fuel rest
      some (c :: body, rest)

/-- What follows the opening quote of a string. -/
def string? (cs : List Char) : Option (String × List Char) := do
  let (body, rest) ← stringBody? cs.length cs
  some (String.ofList body, rest)

/-- `x * 10 ^ exponent` in at most `fuel` steps; refused if it is too large. -/
def scaled? : Nat → Float → Int → Option Float
  | 0, x, _ => some x
  | fuel + 1, x, exponent =>
    if exponent.natAbs ≤ 308 then
      let power := Decimal.nearest 1 exponent.natAbs
      if 0 ≤ exponent then
        let product := x * power
        if product.isInf then none else some product
      else some (x / power)
    else if x == 0.0 then some x
    else if 0 ≤ exponent then none
    else scaled? fuel (x / 1e308) (exponent + 308)

/-- Collect digits onto `significand` while it fits a word. The result has the number of digits
collected and the characters after them. -/
def collectDigits (significand : Nat) : List Char → Nat × Nat × List Char
  | [] => (significand, 0, [])
  | c :: rest =>
    let next := significand * 10 + (c.toNat - '0'.toNat)
    if c.isDigit && decide (next ≤ wordMax) then
      let (significand, count, rest) := collectDigits next rest
      (significand, count + 1, rest)
    else (significand, 0, c :: rest)

/-- The double `significand * 10 ^ scale`, scaled further by the exponent part if there is one. -/
def exponent? (negative : Bool) (significand : Nat) (scale : Int) (cs : List Char) :
    Option (Json × List Char) :=
  let finish (scale : Int) (rest : List Char) : Option (Json × List Char) := do
    let x ← scaled? 4 (UInt64.ofNat significand).toFloat scale
    some (.float (if negative then -x else x), rest)
  match cs with
  | 'e' :: _ | 'E' :: _ => do
    let (exponent, rest) ← Decimal.exponentPart? cs
    finish (scale + exponent) rest
  | _ => finish scale cs

/-- What follows the point of a number. Digits beyond a word are passed over. -/
def fraction? (negative : Bool) (significand : Nat) (scale : Int) (cs : List Char) :
    Option (Json × List Char) :=
  let (significand, count, rest) := collectDigits significand cs
  let rest' := rest.dropWhile Char.isDigit
  if count = 0 ∧ rest'.length = rest.length then none
  else exponent? negative significand (scale - count) rest'

/-- A number without its sign. -/
def unsigned? (negative : Bool) (cs : List Char) : Option (Json × List Char) :=
  let (significand, count, rest) := collectDigits 0 cs
  let leadingZero := cs.head? == some '0'
  if count = 0 ∨ (leadingZero ∧ 1 < count) then none
  else
    let beyond := rest.takeWhile Char.isDigit
    let scale : Int := beyond.length
    match rest.drop beyond.length with
    | '.' :: rest => fraction? negative significand scale rest
    | rest =>
      let isExponent := match rest with
        | 'e' :: _ | 'E' :: _ => true
        | _ => false
      if !beyond.isEmpty || isExponent then exponent? negative significand scale rest
      else if !negative then some (.int significand, rest)
      else if significand = 0 ∨ Int64.maxValue.toInt.toNat + 1 < significand then
        some (.float (-(UInt64.ofNat significand).toFloat), rest)
      else some (.int (-significand), rest)

/-- A number. -/
def number? : List Char → Option (Json × List Char)
  | '-' :: rest => unsigned? true rest
  | cs => unsigned? false cs

/-- The characters after a given word. -/
def word? (word : List Char) (cs : List Char) : Option (List Char) :=
  if word.isPrefixOf cs then some (cs.drop word.length) else none

/-- The items after the first one of a list closed by `close`, read by `item`, of which there are
at most `fuel`. -/
def moreItems? (close : Char) (item : List Char → Option (α × List Char)) :
    Nat → List Char → Option (List α × List Char)
  | 0, _ => none
  | fuel + 1, cs =>
    match skipSpace cs with
    | ',' :: rest => do
      let (first, rest) ← item (skipSpace rest)
      let (items, rest) ← moreItems? close item fuel rest
      some (first :: items, rest)
    | c :: rest => if c = close then some ([], rest) else none
    | [] => none

/-- The items of a list whose opening bracket has been read. -/
def items? (close : Char) (item : List Char → Option (α × List Char)) (cs : List Char) :
    Option (List α × List Char) :=
  match skipSpace cs with
  | [] => none
  | c :: rest =>
    if c = close then some ([], rest)
    else do
      let (first, rest) ← item (c :: rest)
      let (items, rest) ← moreItems? close item rest.length rest
      some (first :: items, rest)

/-- A member of an object, its value read by `value`. -/
def member (value : List Char → Option (α × List Char)) :
    List Char → Option ((String × α) × List Char)
  | '"' :: rest => do
    let (name, rest) ← string? rest
    match skipSpace rest with
    | ':' :: rest => do
      let (value, rest) ← value (skipSpace rest)
      some ((name, value), rest)
    | _ => none
  | _ => none

/-- A document that nests less deeply than `depth`, at the first of the characters. -/
def value? : Nat → List Char → Option (Json × List Char)
  | 0, _ => none
  | depth + 1, cs =>
    match cs with
    | '"' :: rest => do
      let (s, rest) ← string? rest
      some (.string s, rest)
    | '[' :: rest =>
      if depth = 0 then none
      else do
        let (items, rest) ← items? ']' (value? depth) rest
        some (.array items, rest)
    | '\x7b' :: rest =>
      if depth = 0 then none
      else do
        let (members, rest) ← items? '\x7d' (member (value? depth)) rest
        some (.object members, rest)
    | 't' :: _ => (word? "true".toList cs).map fun rest => (.bool true, rest)
    | 'f' :: _ => (word? "false".toList cs).map fun rest => (.bool false, rest)
    | 'n' :: _ => (word? "null".toList cs).map fun rest => (.null, rest)
    | _ => number? cs

/-- The document that a whole text stands for. -/
def ofText? (text : String) : Option Json := do
  let (value, rest) ← value? depthLimit (skipSpace text.toList)
  if (skipSpace rest).isEmpty then some value else none

end TablePlan.Json
