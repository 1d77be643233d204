import TablePlan.ColumnSpec.Basic
import TablePlan.Json.Basic
import TablePlan.Text.Quoted

/-!
# Texts of column specifiers

Three forms: the one that messages show, the one that lays the structure bare, and the document
for data exchange.
-/

namespace TablePlan

namespace NamePredicate

/-- A test as a call, or the label of a custom one. -/
def text : NamePredicate → String
  | startsWith part => "startswith(" ++ Text.quote part ++ ")"
  | endsWith part => "endswith(" ++ Text.quote part ++ ")"
  | contains part => "contains(" ++ Text.quote part ++ ")"
  | custom label _ _ => label

/-- The structure of a test. -/
def inspect : NamePredicate → String
  | startsWith part => "StartsWith(" ++ Text.quote part ++ ")"
  | endsWith part => "EndsWith(" ++ Text.quote part ++ ")"
  | contains part => "Contains(" ++ Text.quote part ++ ")"
  | custom label _ _ => "Custom(CustomPredicate \x7b label: " ++ Text.quote label ++ ", .. \x7d)"

end NamePredicate

namespace ColumnSpec

mutual

/-- A specifier as messages show it. -/
def text : ColumnSpec → String
  | name n => ":" ++ n
  | position i => "$" ++ toString i
  | collection items => "[" ++ Text.joinWith ", " (itemTexts items) ++ "]"
  | grid g => "[" ++ Text.joinWith ", " (itemTexts g.elements) ++ "]"
  | predicate p => p.text
  | range first last => "between(" ++ first.text ++ ", " ++ last.text ++ ")"
  | typeFilter f => f.title
  | all => "all()"
  | not inner => "not(" ++ inner.text ++ ")"

/-- The texts of several specifiers. -/
def itemTexts : List ColumnSpec → List String
  | [] => []
  | item :: rest => item.text :: itemTexts rest

end

mutual

/-- The structure of a specifier. -/
def inspect : ColumnSpec → String
  | name n => "Name \x7b name: " ++ Text.quote n ++ " \x7d"
  | position i => "Position \x7b index: " ++ toString i ++ " \x7d"
  | collection items =>
    "Collection \x7b items: [" ++ Text.joinWith ", " (inspectItems items) ++ "] \x7d"
  | grid g =>
    "Grid \x7b shape: " ++ Shape.text g.shape ++ ", items: ["
      ++ Text.joinWith ", " (inspectItems g.elements) ++ "] \x7d"
  | predicate p => "Predicate \x7b predicate: " ++ p.inspect ++ " \x7d"
  | range first last =>
    "Range \x7b from: " ++ first.inspect ++ ", to: " ++ last.inspect ++ " \x7d"
  | typeFilter f => "TypeFilter \x7b filter: " ++ f.title ++ " \x7d"
  | all => "All"
  | not inner => "Not \x7b inner: " ++ inner.inspect ++ " \x7d"

/-- The structures of several specifiers. -/
def inspectItems : List ColumnSpec → List String
  | [] => []
  | item :: rest => item.inspect :: inspectItems rest

end

mutual

/-- The document of a specifier: its kind, then its parts. -/
def toJson : ColumnSpec → Json
  | name n => .object [("kind", .string "name"), ("name", .string n)]
  | position i => .object [("kind", .string "position"), ("index", .int i.toInt)]
  | collection items =>
    .object [("kind", .string "collection"), ("items", .array (itemsToJson items))]
  | grid g =>
    .object [("kind", .string "grid"), ("shape", .array (g.shape.map fun n : Nat => .int n)),
      ("items", .array (itemsToJson g.elements))]
  | predicate p => .object [("kind", .string "predicate"), ("predicate", .string p.text)]
  | range first last =>
    .object [("kind", .string "range"), ("from", first.toJson), ("to", last.toJson)]
  | typeFilter f => .object [("kind", .string "type_filter"), ("filter", .string f.name)]
  | all => .object [("kind", .string "all")]
  | not inner => .object [("kind", .string "not"), ("inner", inner.toJson)]

/-- The documents of several specifiers. -/
def itemsToJson : List ColumnSpec → List Json
  | [] => []
  | item :: rest => item.toJson :: itemsToJson rest

end

end ColumnSpec

end TablePlan
