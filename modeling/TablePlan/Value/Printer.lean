import TablePlan.Value.Basic
import TablePlan.Decimal.Layout

/-!
# Texts of values

A value is shown plainly, texts without quotes and whole floats without a point. The elements of a
grid are shown by their structure instead, with every kind named and every text quoted.
-/

namespace TablePlan.Value

mutual

/-- The structure of a value. -/
def inspect : Value → String
  | missing => "Null"
  | bool b => "Bool(" ++ toString b ++ ")"
  | int i => "Int(" ++ toString i ++ ")"
  | float x => "Float(" ++ Decimal.literalLayout.text x ++ ")"
  | string s => "String(" ++ Text.quote s ++ ")"
  | list items => "List([" ++ Text.joinWith ", " (inspectItems items) ++ "])"
  | grid g =>
    "Grid(Grid \x7b shape: " ++ Shape.text g.shape ++ ", data: ["
      ++ Text.joinWith ", " (inspectItems g.elements) ++ "] \x7d)"
  | record fields =>
    "Record(Record \x7b fields: [" ++ Text.joinWith ", " (inspectFields fields) ++ "] \x7d)"
  | spec s => "Spec(" ++ s.inspect ++ ")"

/-- The structures of several values. -/
def inspectItems : List Value → List String
  | [] => []
  | item :: rest => item.inspect :: inspectItems rest

/-- The structures of the fields of a record. -/
def inspectFields : List (String × Value) → List String
  | [] => []
  | (name, value) :: rest =>
    ("(" ++ Text.quote name ++ ", " ++ value.inspect ++ ")") :: inspectFields rest

end

mutual

/-- A value as plain text. -/
def text : Value → String
  | missing => "missing"
  | bool b => toString b
  | int i => toString i
  | float x => Decimal.plainLayout.text x
  | string s => s
  | list items => "[" ++ Text.joinWith ", " (itemTexts items) ++ "]"
  | grid g =>
    Shape.text g.shape ++ "-grid[" ++ Text.joinWith ", " (inspectItems g.elements) ++ "]"
  | record fields => "(" ++ Text.joinWith ", " (fieldTexts fields) ++ ")"
  | spec s => s.text

/-- The plain texts of several values. -/
def itemTexts : List Value → List String
  | [] => []
  | item :: rest => item.text :: itemTexts rest

/-- The plain texts of the fields of a record. -/
def fieldTexts : List (String × Value) → List String
  | [] => []
  | (name, value) :: rest => (name ++ " = " ++ value.text) :: fieldTexts rest

end

end TablePlan.Value
