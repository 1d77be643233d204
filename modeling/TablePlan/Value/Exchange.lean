import TablePlan.Value.Basic
import TablePlan.Json.Basic

/-!
# Values and documents

A document becomes a value with the members of its objects sorted by name. A value becomes a
document with the fields of its records in their own order.
-/

namespace TablePlan.Value

/-- The value of an integer, as a float if it does not fit. -/
def ofInteger (i : Int) : Value :=
  if Int64.minValue.toInt ≤ i ∧ i ≤ Int64.maxValue.toInt then int (Int64.ofInt i)
  else float (UInt64.ofNat i.toNat).toFloat

mutual

/-- The value of a document whose objects are in canonical order. -/
def ofCanonical : Json → Value
  | .null => missing
  | .bool b => bool b
  | .int i => ofInteger i
  | .float x => float x
  | .string s => string s
  | .array items => list (ofCanonicalItems items)
  | .object members => record (ofCanonicalMembers members)

/-- The values of the items of an array. -/
def ofCanonicalItems : List Json → List Value
  | [] => []
  | item :: rest => ofCanonical item :: ofCanonicalItems rest

/-- The values of the members of an object. -/
def ofCanonicalMembers : List (String × Json) → List (String × Value)
  | [] => []
  | (name, value) :: rest => (name, ofCanonical value) :: ofCanonicalMembers rest

end

/-- The value of a document. -/
def ofJson (j : Json) : Value :=
  ofCanonical j.canonical

mutual

/-- The document of a value. -/
def toJson : Value → Json
  | missing => .null
  | bool b => .bool b
  | int i => .int i.toInt
  | float x => if x.isFinite then .float x else .null
  | string s => .string s
  | list items => .array (itemsToJson items)
  | grid g =>
    .object [("shape", .array (g.shape.map fun n : Nat => .int n)),
      ("data", .array (itemsToJson g.elements))]
  | record fields => .object (fieldsToJson fields)
  | spec s => s.toJson

/-- The documents of several values. -/
def itemsToJson : List Value → List Json
  | [] => []
  | item :: rest => item.toJson :: itemsToJson rest

/-- The documents of the fields of a record. -/
def fieldsToJson : List (String × Value) → List (String × Json)
  | [] => []
  | (name, value) :: rest => (name, value.toJson) :: fieldsToJson rest

end

end TablePlan.Value
