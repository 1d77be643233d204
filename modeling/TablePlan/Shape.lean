/-!
# Shapes and broadcasting

A shape lists the sizes of the dimensions; the first dimension runs fastest. Shapes align on their
leading dimensions: a dimension that one of them lacks counts as size one, and a dimension of size
one stretches to the size of the others. Elements are counted in machine words: a shape with more of
them than a word can count is never enumerated.
-/

namespace TablePlan

/-- Sizes of the dimensions; a scalar has none. -/
abbrev Shape := List Nat

namespace Shape

/-- The number of elements, however large it is. -/
def size (shape : Shape) : Nat :=
  shape.foldr (· * ·) 1

@[simp] theorem size_nil : size [] = 1 := rfl

@[simp] theorem size_cons (n : Nat) (shape : Shape) : size (n :: shape) = n * size shape := rfl

/-- The product of two sizes, if it is a machine word. A size is one already, so a product with one
always is. -/
def times? (m n : Nat) : Option Nat :=
  if m * n < UInt64.size ∨ m = 1 ∨ n = 1 then some (m * n) else none

/-- The number of elements as it is computed, if no product on the way leaves the machine words. -/
def count? (shape : Shape) : Option Nat :=
  shape.foldlM times? 1

/-- The index at a position: the remainder by the size of the first dimension, and the index that
the quotient is the position of. -/
def digits : Shape → Nat → List Nat
  | [], _ => []
  | n :: shape, place => place % n :: digits shape (place / n)

/-- The indices into a shape in the order of its elements, if these can be counted. -/
def enumerate? (shape : Shape) : Option (List (List Nat)) :=
  (count? shape).map fun count => (List.range count).map (digits shape)

/-- The position of an index among the elements, if it lies inside the shape. -/
def position? : Shape → List Nat → Option Nat
  | [], [] => some 0
  | n :: shape, i :: index =>
    if i < n then (position? shape index).map fun rest => i + n * rest else none
  | _, _ => none

/-- The position that an index of a larger shape has in this one: dimensions of size one are
stretched and dimensions beyond this shape are ignored. -/
def operandPosition : Shape → List Nat → Nat
  | [], _ => 0
  | n :: shape, [] => n * operandPosition shape []
  | n :: shape, i :: index => (if n = 1 then 0 else i) + n * operandPosition shape index

/-- The size that two sizes of one dimension stretch to. -/
def joinSize? (m n : Nat) : Option Nat :=
  if m = 1 then some n else if n = 1 ∨ n = m then some m else none

/-- The shape that two shapes stretch to. -/
def join? : Shape → Shape → Option Shape
  | [], other => some other
  | shape, [] => some shape
  | m :: shape, n :: other => do
    let size ← joinSize? m n
    let rest ← join? shape other
    some (size :: rest)

@[simp] theorem join?_nil_left (shape : Shape) : join? [] shape = some shape := by
  cases shape <;> rfl

@[simp] theorem join?_nil_right (shape : Shape) : join? shape [] = some shape := by
  cases shape <;> rfl

/-- The shape that all of several shapes stretch to. -/
def common? (shapes : List Shape) : Option Shape :=
  shapes.foldlM join? []

/-- Numbers between brackets. -/
def text (shape : Shape) : String :=
  "[" ++ String.intercalate ", " (shape.map toString) ++ "]"

end Shape

end TablePlan
