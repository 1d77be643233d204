import TablePlan.Stop

/-!
# Grids

A grid holds elements of an array of any number of dimensions in one list, the first dimension
fastest. It is well formed when it has as many elements as its shape says.
-/

namespace TablePlan

/-- An array of any number of dimensions. -/
structure Grid (α : Type) where
  shape : Shape
  elements : List α

namespace Grid

variable {α : Type}

/-- The number of elements is the one that the shape asks for. -/
def WellFormed (g : Grid α) : Prop :=
  Shape.size g.shape = g.elements.length

instance (g : Grid α) : Decidable g.WellFormed :=
  inferInstanceAs (Decidable (_ = _))

/-- A grid of the given shape, if the number of elements agrees. -/
def ofShape? (shape : Shape) (elements : List α) : Except Stop (Option (Grid α)) :=
  match Shape.count? shape with
  | some count => .ok (if count = elements.length then some ⟨shape, elements⟩ else none)
  | none => .error (.sizes shape)

/-- A matrix from its rows, of which there is at least one, all equally long. -/
def ofRows? (rows : List (List α)) : Option (Grid α) :=
  match rows with
  | [] => none
  | first :: _ =>
    let width := first.length
    if rows.all fun row => row.length == width then
      some ⟨[rows.length, width],
        (List.range width).flatMap fun c => rows.filterMap fun row => row[c]?⟩
    else none

/-- The element at an index, counted from zero. -/
def get? (g : Grid α) (index : List Nat) : Option α :=
  (Shape.position? g.shape index).bind fun i => g.elements[i]?

/-- A matrix with its rows and columns exchanged. -/
def transposed? (g : Grid α) : Option (Grid α) :=
  match g.shape with
  | [rows, columns] => do
    let places := (List.range rows).flatMap fun r => (List.range columns).map fun c => c * rows + r
    let elements ← places.mapM fun i => g.elements[i]?
    some ⟨[columns, rows], elements⟩
  | _ => none

end Grid

end TablePlan
