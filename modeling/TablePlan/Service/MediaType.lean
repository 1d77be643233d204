/-!
# Media types

Whether the declared type of a body says that it is a JSON document. The type has to be
`application`, and the subtype or its suffix, which stands after the last plus sign, `json`.
Parameters after a semicolon have to be well formed and are otherwise passed over.
-/

namespace TablePlan.MediaType

/-- Whether a character can stand in a token. -/
def isTokenChar (c : Char) : Bool :=
  c.isAlphanum || "!#$%&'*+-.^_`|~".toList.contains c

/-- Whether a character can stand between quotes. -/
def isTextChar (c : Char) : Bool :=
  decide (32 ≤ c.toNat) && decide (c.toNat < 127)

/-- Where a text of parameters has got to. -/
inductive Place where
  | beforeName
  | inName
  | beforeValue
  | inValue
  /-- Right after an opening quote, where even a quote counts as text. -/
  | afterQuote
  | inQuotes
  | afterQuotes
deriving DecidableEq

namespace Place

/-- The place after one more character, if that can stand there. -/
def step : Place → Char → Option Place
  | beforeName, c =>
    if c = ' ' then some beforeName else if isTokenChar c then some inName else none
  | inName, c => if c = '=' then some beforeValue else if isTokenChar c then some inName else none
  | beforeValue, c =>
    if c = '"' then some afterQuote else if isTokenChar c then some inValue else none
  | inValue, c => if c = ';' then some beforeName else if isTokenChar c then some inValue else none
  | afterQuote, c => if isTextChar c then some inQuotes else none
  | inQuotes, c =>
    if c = '"' then some afterQuotes else if isTextChar c then some inQuotes else none
  | afterQuotes, c =>
    if c = ' ' then some afterQuotes else if c = ';' then some beforeName else none

/-- Whether a text of parameters can end here. -/
def isComplete : Place → Bool
  | beforeName | beforeValue | inValue | afterQuotes => true
  | inName | afterQuote | inQuotes => false

end Place

/-- Whether the text after the first semicolon is one of parameters. -/
def areParameters (cs : List Char) : Bool :=
  (cs.foldlM Place.step .beforeName).any Place.isComplete

/-- A subtype without its suffix, and the suffix if there is one. -/
def splitSuffix (subtype : List Char) : List Char × Option (List Char) :=
  match subtype.reverse.span (· != '+') with
  | (suffix, '+' :: name) =>
    if name.isEmpty then (subtype, none) else (name.reverse, some suffix.reverse)
  | _ => (subtype, none)

/-- Whether a type and its subtype, in lower case, stand for JSON documents. -/
def isJsonType (cs : List Char) : Bool :=
  match cs.span (· != '/') with
  | (type, '/' :: subtype) =>
    let (name, suffix) := splitSuffix subtype
    type == "application".toList && subtype.all isTokenChar
      && (name == "json".toList || suffix == some "json".toList)
  | _ => false

/-- Whether a media type stands for JSON documents. -/
def isJson (s : String) : Bool :=
  match s.toList.span (· != ';') with
  | (type, _ :: parameters) => isJsonType (type.map Char.toLower) && areParameters parameters
  | (type, []) => isJsonType (type.map Char.toLower)

end TablePlan.MediaType
