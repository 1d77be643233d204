import TablePlan.Json.Reader

/-!
# Passing over documents

A document that does not count is passed over by its form alone: its numbers may be too large, its
escapes need not stand for characters, and it may nest to any depth.
-/

namespace TablePlan.Json

/-- The characters after at least one digit. -/
def skipDigits? (cs : List Char) : Option (List Char) :=
  match Decimal.spanDigits cs with
  | ([], _) => none
  | (_, rest) => some rest

/-- The characters after the exponent of a number, if it has one. -/
def skipExponent? : List Char → Option (List Char)
  | 'e' :: rest | 'E' :: rest =>
    match rest with
    | '+' :: rest | '-' :: rest => skipDigits? rest
    | rest => skipDigits? rest
  | rest => some rest

/-- The characters after the fraction and the exponent of a number, if it has them. -/
def skipFraction? : List Char → Option (List Char)
  | '.' :: rest => do skipExponent? (← skipDigits? rest)
  | rest => skipExponent? rest

/-- The characters after a number. -/
def skipNumber? (cs : List Char) : Option (List Char) :=
  let unsigned := match cs with
    | '-' :: rest => rest
    | _ => cs
  match Decimal.spanDigits unsigned with
  | ([], _) | ('0' :: _ :: _, _) => none
  | (_, rest) => skipFraction? rest

/-- The characters after an escape whose backslash has been read. -/
def skipEscape? : List Char → Option (List Char)
  | 'u' :: rest => (hexQuad? rest).map Prod.snd
  | c :: rest => if "\"\\/bfnrt".toList.contains c then some rest else none
  | [] => none

/-- The characters after a closing quote, which is at most `fuel` characters away. -/
def skipString? : Nat → List Char → Option (List Char)
  | 0, _ => none
  | _, [] => none
  | fuel + 1, c :: rest =>
    if c = '"' then some rest
    else if c = '\\' then do skipString? fuel (← skipEscape? rest)
    else if c.toNat < 32 then none
    else skipString? fuel rest

/-- The characters after a member of an object, its value passed over by `value`. -/
def skipMember (value : List Char → Option (Unit × List Char)) :
    List Char → Option (Unit × List Char)
  | '"' :: rest => do
    match skipSpace (← skipString? rest.length rest) with
    | ':' :: rest => value (skipSpace rest)
    | _ => none
  | _ => none

/-- The characters after a document that nests less deeply than `depth`. -/
def skipValue? : Nat → List Char → Option (Unit × List Char)
  | 0, _ => none
  | depth + 1, cs =>
    let passed (rest : Option (List Char)) : Option (Unit × List Char) :=
      rest.map fun rest => ((), rest)
    match cs with
    | '"' :: rest => passed (skipString? rest.length rest)
    | '[' :: rest => passed ((items? ']' (skipValue? depth) rest).map Prod.snd)
    | '\x7b' :: rest => passed ((items? '\x7d' (skipMember (skipValue? depth)) rest).map Prod.snd)
    | 't' :: _ => passed (word? "true".toList cs)
    | 'f' :: _ => passed (word? "false".toList cs)
    | 'n' :: _ => passed (word? "null".toList cs)
    | _ => passed (skipNumber? cs)

/-- The characters after the document at the first of the characters. -/
def skip? (cs : List Char) : Option (Unit × List Char) :=
  skipValue? cs.length cs

end TablePlan.Json
