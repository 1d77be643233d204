import TablePlan.ColumnSpec.Selection
import TablePlan.Decimal.Binary

/-!
# Runtime values

The values that functions take and return. `missing` stands for an absent observation. Collections
are flat lists or grids; a record keeps its fields in order; a column specifier is a value too, so
that selectors can compute one.
-/

namespace TablePlan

/-- A runtime value. -/
inductive Value where
  | missing
  | bool (b : Bool)
  | int (i : Int64)
  | float (x : Float)
  | string (s : String)
  | list (items : List Value)
  | grid (items : Grid Value)
  | record (fields : List (String × Value))
  | spec (spec : ColumnSpec)

namespace Value

/-- The name of the type of a value. -/
def typeName : Value → String
  | missing => "missing"
  | bool _ => "bool"
  | int _ => "int"
  | float _ => "float"
  | string _ => "string"
  | list _ => "list"
  | grid _ => "grid"
  | record _ => "record"
  | spec _ => "column specifier"

/-- Whether a value is missing. -/
def isMissing : Value → Bool
  | missing => true
  | _ => false

/-- The truth value held. -/
def bool? : Value → Option Bool
  | bool b => some b
  | _ => none

/-- The number held, integers rounded to the nearest double. -/
def number? : Value → Option Float
  | int i => some (Decimal.ofInt64 i)
  | float x => some x
  | _ => none

/-- The text held. -/
def string? : Value → Option String
  | string s => some s
  | _ => none

/-- The broadcasting shape; everything but a list or a grid is a scalar. -/
def shape : Value → Shape
  | list items => [items.length]
  | grid g => g.shape
  | _ => []

/-- Whether a value has elements to broadcast over. -/
def isCollection : Value → Bool
  | list _ | grid _ => true
  | _ => false

/-- The elements of a collection; a scalar is its own single element. -/
def elements : Value → List Value
  | list items => items
  | grid g => g.elements
  | scalar => [scalar]

/-- The value of the given shape with the given elements. -/
def ofShape (shape : Shape) (elements : List Value) : Value :=
  match shape with
  | [] => elements.getLastD missing
  | [_] => list elements
  | _ => grid ⟨shape, elements⟩

@[simp] theorem shape_list (items : List Value) : (list items).shape = [items.length] := rfl

@[simp] theorem shape_grid (g : Grid Value) : (grid g).shape = g.shape := rfl

@[simp] theorem elements_list (items : List Value) : (list items).elements = items := rfl

@[simp] theorem elements_grid (g : Grid Value) : (grid g).elements = g.elements := rfl

/-- The order of two doubles; a value that is not a number has none. -/
def compareFloat? (x y : Float) : Option Ordering :=
  if x < y then some .lt else if x == y then some .eq else if x > y then some .gt else none

/-- The order of two numbers, two texts or two truth values. -/
def compare? : Value → Value → Option Ordering
  | int a, int b => some (compare a b)
  | string a, string b => some (compare a b)
  | bool a, bool b => some (compare a b)
  | a, b => do compareFloat? (← a.number?) (← b.number?)

mutual

/-- Whether two values have the same structure. An integer is never the same as a float, and a
float that is not a number is not even the same as itself. -/
def same : Value → Value → Bool
  | missing, missing => true
  | bool a, bool b => a == b
  | int a, int b => a == b
  | float a, float b => a == b
  | string a, string b => a == b
  | list a, list b => sameItems a b
  | grid a, grid b => a.shape == b.shape && sameItems a.elements b.elements
  | record a, record b => sameFields a b
  | spec a, spec b => a.same b
  | _, _ => false

/-- Whether two lists hold the same values. -/
def sameItems : List Value → List Value → Bool
  | [], [] => true
  | a :: as, b :: bs => a.same b && sameItems as bs
  | _, _ => false

/-- Whether two records hold the same fields in the same order. -/
def sameFields : List (String × Value) → List (String × Value) → Bool
  | [], [] => true
  | (n, a) :: as, (m, b) :: bs => n == m && a.same b && sameFields as bs
  | _, _ => false

end

instance : BEq Value := ⟨same⟩

mutual

/-- The specifier that a value stands for: a text is a name, an integer a position, a collection
holds specifiers. -/
def toSpec : Value → Except SpecError ColumnSpec
  | string s => .ok (.name s)
  | int i => .ok (.position i)
  | list items => return .collection (← itemsToSpecs items)
  | grid g => return .grid ⟨g.shape, ← itemsToSpecs g.elements⟩
  | spec s => .ok s
  | other => .error (.notASpecifier other.typeName)

/-- The specifiers that the elements of a collection stand for. -/
def itemsToSpecs : List Value → Except SpecError (List ColumnSpec)
  | [] => .ok []
  | item :: rest => return (← item.toSpec) :: (← itemsToSpecs rest)

end

end Value

end TablePlan
