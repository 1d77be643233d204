import TablePlan.Decimal.Reading
import TablePlan.Expr.Printer
import TablePlan.Grammar.Cursor

/-!
# Lexemes

The words, numbers, texts and signs of the notation. Each is recognized at the very first
character; `token` passes over blank space and comments before one. A comment runs from a number
sign to the end of its line.

A word that is set apart for the grammar is never a name. An escape in a text stands for a line
end, a tab or a carriage return, and any other character escaped stands for itself.
-/

namespace TablePlan.Grammar

/-- The characters after blank space and comments; `inComment` says whether the first character
belongs to a comment. -/
def skipBlank (inComment : Bool) : List Char → List Char
  | [] => []
  | c :: rest =>
    if inComment then skipBlank (c != '\n') rest
    else if c == ' ' || c == '\t' || c == '\r' || c == '\n' then skipBlank false rest
    else if c == '#' then skipBlank true rest
    else c :: rest

/-- The characters after `word`, which may begin another word. -/
def expect? (word cs : List Char) : Option (Unit × List Char) :=
  if word.isPrefixOf cs then some ((), cs.drop word.length) else none

/-- The words set apart for the grammar. -/
def keywords : List String := ["begin", "end", "true", "false", "missing", "nothing"]

/-- The longest word at the first character, keyword or name. -/
def word? : List Char → Option (String × List Char)
  | [] => none
  | c :: rest =>
    if isNameStart c then
      some (String.ofList (c :: rest.takeWhile isNameChar), rest.dropWhile isNameChar)
    else none

/-- A name: a word that is not a keyword. -/
def name? (cs : List Char) : Option (String × List Char) := do
  let (word, rest) ← word? cs
  if keywords.contains word then none else some (word, rest)

/-- One or more letters. -/
def letters? (cs : List Char) : Option (String × List Char) :=
  let letters := cs.takeWhile Char.isAlpha
  if letters.isEmpty then none else some (String.ofList letters, cs.dropWhile Char.isAlpha)

/-- One or more digits. -/
def digits? (cs : List Char) : Option (List Char × List Char) :=
  match Decimal.spanDigits cs with
  | ([], _) => none
  | found => some found

/-- A number with a fraction, an exponent or both. -/
def float? (cs : List Char) : Option (Float × List Char) := do
  let (whole, rest) ← digits? cs
  match rest with
  | '.' :: rest => do
    let (fraction, rest) ← digits? rest
    let coefficient := Decimal.natOfDigits (whole ++ fraction)
    match Decimal.exponentPart? rest with
    | some (exponent, rest) => some (Decimal.nearest coefficient (exponent - fraction.length), rest)
    | none => some (Decimal.nearest coefficient (-(fraction.length : Int)), rest)
  | _ => do
    let (exponent, rest) ← Decimal.exponentPart? rest
    some (Decimal.nearest (Decimal.natOfDigits whole) exponent, rest)

/-- The character that an escape stands for. -/
def unescape (c : Char) : Char :=
  match c with
  | 'n' => '\n'
  | 't' => '\t'
  | 'r' => '\r'
  | c => c

/-- The text up to the closing quote, with its escapes resolved. -/
def quotedBody? : List Char → Option (List Char × List Char)
  | [] => none
  | '"' :: rest => some ([], rest)
  | ['\\'] => none
  | '\\' :: c :: rest => (quotedBody? rest).map fun (body, rest) => (unescape c :: body, rest)
  | c :: rest => (quotedBody? rest).map fun (body, rest) => (c :: body, rest)

/-- A text between quotes. -/
def quoted? : List Char → Option (String × List Char)
  | '"' :: rest => (quotedBody? rest).map fun (body, rest) => (String.ofList body, rest)
  | _ => none

/-- One character between single quotes; a backslash always begins an escape. -/
def character? : List Char → Option (String × List Char)
  | '\'' :: '\\' :: c :: rest =>
    match rest with
    | '\'' :: rest => some (String.ofList [unescape c], rest)
    | _ => none
  | '\'' :: c :: '\'' :: rest => if c = '\'' then none else some (String.ofList [c], rest)
  | _ => none

/-- The first of several operators that is written at the first character, plain or after a dot if
`dots` allows one. The result says whether there was a dot. -/
def operator? {α : Type} (dots : Bool) (symbols : List (String × α)) (cs : List Char) :
    Option ((α × Bool) × List Char) :=
  let (dotted, rest) := match cs with
    | '.' :: rest => if dots then (true, rest) else (false, cs)
    | _ => (false, cs)
  symbols.findSome? fun (symbol, op) =>
    (expect? symbol.toList rest).map fun (_, rest) => ((op, dotted), rest)

/-- The directive letters after an at sign. -/
def directive? : List Char → Option (String × List Char)
  | '@' :: rest => letters? rest
  | _ => none

/-- A column written as a colon with its name or a quoted text right after it. -/
def columnName? : List Char → Option (String × List Char)
  | ':' :: rest => name? rest <|> quoted? rest
  | _ => none

/-- A name with three dots right after it. -/
def splat? (cs : List Char) : Option (String × List Char) := do
  let (name, rest) ← name? cs
  let (_, rest) ← expect? "...".toList rest
  some (name, rest)

/-- The word that names a kind of call: letters, with an exclamation mark or without. -/
def kindWord? (cs : List Char) : Option (String × List Char) :=
  match letters? cs with
  | some (letters, '!' :: rest) => some (letters ++ "!", rest)
  | found => found

/-- Read a lexeme after blank space and comments. -/
def token {α : Type} (lexeme : List Char → Option (α × List Char)) : Reader α := fun c =>
  (lexeme (skipBlank false c.rest)).map fun (a, rest) => (a, { c with rest })

/-- Read a fixed sign or word. -/
def sign (word : String) : Reader Unit :=
  token (expect? word.toList)

/-- Read nothing more. -/
def endOfText : Reader Unit :=
  token fun cs => if cs.isEmpty then some ((), cs) else none

end TablePlan.Grammar
