import TablePlan.Proofs.Eval.Alignment
import TablePlan.Proofs.Grid

/-!
# Elements by position and by index

The indices of a shape are numbered from zero in the order of their enumeration, and the number of
an index is its position among the elements. So an element of a grid can be asked for either way: by
one index for every dimension, or by its position alone.
-/

namespace TablePlan

variable {α : Type}

/-! ### Numbers of indices -/

namespace Shape

theorem stretched_self {shape : Shape} {index : List Nat} (inside : Inside shape index) :
    stretched shape index = index := by
  induction inside with
  | nil => rfl
  | @cons i n index shape below _ ih =>
      have place : (if n = 1 then 0 else i) = i := by
        split <;> omega
      exact congrArg₂ List.cons place ih

theorem position?_of_inside {shape : Shape} {index : List Nat} (inside : Inside shape index) :
    position? shape index = some (operandPosition shape index) := by
  have same := position?_stretched (stretches_refl shape) inside
  rwa [stretched_self inside] at same

theorem nodup_indices (shape : Shape) : (indices shape).Nodup :=
  (pairwise_indices shape).imp fun {index other} earlier same => by
    subst same
    exact earlier.asymm earlier

variable {shape : Shape} {k : Nat} {index : List Nat}

theorem inside_of_number (number : (indices shape)[k]? = some index) : Inside shape index :=
  mem_indices_iff.mp (List.mem_of_getElem? number)

theorem lt_size_of_number (number : (indices shape)[k]? = some index) : k < size shape :=
  length_indices shape ▸ (List.getElem?_eq_some_iff.mp number).1

/-- The number of an index is its position. -/
theorem operandPosition_of_number (number : (indices shape)[k]? = some index) :
    operandPosition shape index = k := by
  have listed : ((indices shape).map (operandPosition shape))[k]? = some k := by
    rw [map_operandPosition_indices, List.getElem?_range (lt_size_of_number number)]
  simpa [number] using listed

theorem position?_of_number (number : (indices shape)[k]? = some index) :
    position? shape index = some k := by
  rw [position?_of_inside (inside_of_number number), operandPosition_of_number number]

/-- An index has the digits of its number. -/
theorem eq_digits_of_number (number : (indices shape)[k]? = some index) :
    index = digits shape k := by
  have below := lt_size_of_number number
  rw [indices_eq_digits, List.getElem?_map, List.getElem?_range below] at number
  exact (Option.some.inj number).symm

/-- Only an index inside the shape has a position. -/
theorem inside_of_position? {place : Nat} (found : position? shape index = some place) :
    Inside shape index := by
  induction shape generalizing index place with
  | nil =>
      cases index with
      | nil => exact .nil
      | cons i index => cases found
  | cons n shape ih =>
      cases index with
      | nil => cases found
      | cons i index =>
          rw [position?] at found
          split at found
          · obtain ⟨rest, later, -⟩ := Option.map_eq_some_iff.mp found
            exact .cons ‹i < n› (ih later)
          · cases found

end Shape

/-! ### Elements of grids -/

namespace Grid

variable {g h : Grid α} {k : Nat} {index : List Nat}

/-- The element at an index is the one with its number. -/
theorem get?_of_number (number : (Shape.indices g.shape)[k]? = some index) :
    g.get? index = g.elements[k]? := by
  rw [get?, Shape.position?_of_number number, Option.bind_some]

theorem WellFormed.exists_of_number (whole : g.WellFormed)
    (number : (Shape.indices g.shape)[k]? = some index) :
    ∃ a, g.elements[k]? = some a ∧ g.get? index = some a := by
  have below : k < g.elements.length := whole ▸ Shape.lt_size_of_number number
  have there := List.getElem?_eq_getElem below
  exact ⟨_, there, (get?_of_number number).trans there⟩

/-- Grids of one shape are the same if they have the same elements at all indices. -/
theorem WellFormed.ext (whole : g.WellFormed) (whole' : h.WellFormed) (shape : g.shape = h.shape)
    (each : ∀ index, Shape.Inside g.shape index → g.get? index = h.get? index) : g = h := by
  have elements : g.elements = h.elements := by
    have count : g.elements.length = h.elements.length := by
      rw [← whole, ← whole', shape]
    refine List.ext_getElem? fun k => ?_
    by_cases below : k < (Shape.indices g.shape).length
    · obtain ⟨index, number⟩ : ∃ index, (Shape.indices g.shape)[k]? = some index :=
        ⟨_, List.getElem?_eq_getElem below⟩
      have same := each index (Shape.inside_of_number number)
      rw [get?_of_number number] at same
      rw [shape] at number
      rwa [get?_of_number number] at same
    · rw [Shape.length_indices, whole] at below
      rw [List.getElem?_eq_none (by omega), List.getElem?_eq_none (by omega)]
  cases g
  cases h
  exact congrArg₂ mk shape elements

end Grid

end TablePlan
