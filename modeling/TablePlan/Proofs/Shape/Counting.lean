import Mathlib.Data.List.Basic
import TablePlan.Shape

/-!
# Counting elements

The elements of a shape are counted as long as the products of its leading sizes are machine words.
Then the enumeration of its indices lists all of them: those of the last dimensions one after
another, each with every place along the first.
-/

namespace TablePlan.Shape

/-! ### Indices in order -/

/-- Every index into a shape, the first dimension fastest. -/
def indices : Shape → List (List Nat)
  | [] => [[]]
  | n :: shape => (indices shape).flatMap fun rest => (List.range n).map (· :: rest)

theorem range_mul (n m : Nat) :
    List.range (n * m) = (List.range m).flatMap fun k => (List.range n).map fun i => i + n * k := by
  induction m with
  | zero => rfl
  | succ m ih =>
      rw [Nat.mul_succ, List.range_add, ih, List.range_succ, List.flatMap_append]
      simp [Nat.add_comm]

/-- The indices of a shape are those at its positions, in order. -/
theorem indices_eq_digits (shape : Shape) :
    indices shape = (List.range (size shape)).map (digits shape) := by
  induction shape with
  | nil => rfl
  | cons n shape ih =>
      rw [indices, ih, size_cons, range_mul, List.flatMap_map, List.map_flatMap]
      refine List.flatMap_congr fun place _ => ?_
      rw [List.map_map]
      refine List.map_congr_left fun i inside => ?_
      have below : i < n := List.mem_range.mp inside
      simp only [Function.comp_apply, digits, Nat.add_mul_mod_self_left, Nat.mod_eq_of_lt below,
        Nat.add_mul_div_left _ _ (Nat.zero_lt_of_lt below), Nat.div_eq_of_lt below, Nat.zero_add]

theorem length_indices (shape : Shape) : (indices shape).length = size shape := by
  rw [indices_eq_digits, List.length_map, List.length_range]

/-! ### Shapes that can be counted -/

/-- Every product of leading sizes is a machine word. One that is a size itself is a word already. -/
def Fits (shape : Shape) : Prop :=
  ∀ leading, leading <+: shape → size leading < UInt64.size ∨ size leading ∈ leading

theorem times?_eq_some_iff {m n k : Nat} :
    times? m n = some k ↔ (m * n < UInt64.size ∨ m = 1 ∨ n = 1) ∧ m * n = k := by
  simp only [times?, Option.ite_none_right_eq_some, Option.some.injEq]

/-- The product of what was counted before with some sizes is a machine word or one of the factors. -/
def Counted (start : Nat) (sizes : Shape) : Prop :=
  start * size sizes < UInt64.size ∨ start * size sizes ∈ start :: sizes

theorem counted_singleton {start n : Nat} :
    Counted start [n] ↔ start * n < UInt64.size ∨ start = 1 ∨ n = 1 := by
  simp only [Counted, size_cons, size_nil, Nat.mul_one, List.mem_cons, List.not_mem_nil, or_false]
  by_cases zero : start = 0 ∨ n = 0
  · have small : start * n < UInt64.size := by
      rw [Nat.mul_eq_zero.mpr zero]
      decide
    simp [small]
  · obtain ⟨left, right⟩ := not_or.mp zero
    rw [Nat.mul_eq_left left, Nat.mul_eq_right right, or_comm (a := start = 1)]

/-- One size more is counted like the product with it before. -/
theorem counted_cons {start n : Nat} {sizes : Shape} (first : Counted start [n]) :
    Counted start (n :: sizes) ↔ Counted (start * n) sizes := by
  rw [counted_singleton] at first
  simp only [Counted, size_cons, List.mem_cons, ← Nat.mul_assoc]
  by_cases zero : start * n = 0
  · simp [zero, UInt64.size]
  · obtain ⟨left, right⟩ := Nat.mul_ne_zero_iff.mp zero
    constructor
    · rintro (small | same | same | factor)
      · exact .inl small
      · rw [Nat.mul_assoc, Nat.mul_eq_left left] at same
        exact .inr (.inl (by rw [Nat.eq_one_of_mul_eq_one_left same, Nat.mul_one]))
      · rw [Nat.mul_right_comm, Nat.mul_eq_right right] at same
        exact .inr (.inl (by rw [Nat.eq_one_of_mul_eq_one_left same, Nat.mul_one]))
      · exact .inr (.inr factor)
    · rintro (small | same | factor)
      · exact .inl small
      · rw [same]
        obtain small | rfl | rfl := first
        · exact .inl small
        · exact .inr (.inr (.inl (Nat.one_mul n)))
        · exact .inr (.inl (Nat.mul_one start))
      · exact .inr (.inr (.inr factor))

/-- The fold multiplies sizes to what was counted before, as long as every product on the way is a
machine word. -/
theorem foldlM_times?_eq_some_iff {shape : Shape} {start count : Nat} :
    shape.foldlM times? start = some count
      ↔ (∀ leading, leading <+: shape → Counted start leading) ∧ start * size shape = count := by
  induction shape generalizing start with
  | nil => simp [Counted]
  | cons n shape ih =>
      have step : List.foldlM times? start (n :: shape) = some count
          ↔ Counted start [n] ∧ List.foldlM times? (start * n) shape = some count := by
        rw [List.foldlM_cons, Option.bind_eq_bind, Option.bind_eq_some_iff, counted_singleton]
        simp only [times?_eq_some_iff, and_assoc, exists_and_left, exists_eq_left']
      rw [step, ih, ← and_assoc, size_cons, Nat.mul_assoc]
      refine and_congr_left fun _ => ⟨fun ⟨first, later⟩ leading below => ?_, fun each => ?_⟩
      · cases leading with
        | nil => simp [Counted]
        | cons m sizes =>
            obtain ⟨rfl, inside⟩ := List.cons_prefix_cons.mp below
            exact (counted_cons first).mpr (later sizes inside)
      · have first := each [n] (by simp)
        exact ⟨first, fun sizes below => (counted_cons first).mp <|
          each (n :: sizes) (List.cons_prefix_cons.mpr ⟨rfl, below⟩)⟩

theorem count?_eq_some_iff {shape : Shape} {count : Nat} :
    count? shape = some count ↔ Fits shape ∧ size shape = count := by
  rw [count?, foldlM_times?_eq_some_iff, Nat.one_mul]
  refine and_congr_left fun _ => forall₂_congr fun leading _ => ?_
  rw [Counted, Nat.one_mul, List.mem_cons]
  constructor
  · rintro (small | one | factor)
    · exact .inl small
    · exact .inl (by rw [one]; decide)
    · exact .inr factor
  · exact Or.imp_right .inr

instance (shape : Shape) : Decidable (Fits shape) :=
  decidable_of_iff ((count? shape).isSome = true) <| by
    simp only [Option.isSome_iff_exists, count?_eq_some_iff, exists_and_left, exists_eq', and_true]

theorem count?_eq_none_iff {shape : Shape} : count? shape = none ↔ ¬ Fits shape := by
  rw [Option.eq_none_iff_forall_ne_some]
  constructor
  · exact fun none fits => none _ (count?_eq_some_iff.mpr ⟨fits, rfl⟩)
  · exact fun uncounted _ found => uncounted (count?_eq_some_iff.mp found).1

example : Fits [4294967296, 4294967295] ∧ ¬ Fits [4294967296, 4294967296] := by decide

theorem fits_scalar : Fits [] :=
  (count?_eq_some_iff.mp (show count? [] = some 1 from rfl)).1

/-- A list is counted, however long it is. -/
theorem fits_vector (n : Nat) : Fits [n] :=
  (count?_eq_some_iff.mp (show count? [n] = some n by simp [count?, times?])).1

theorem size_append (shape rest : Shape) : size (shape ++ rest) = size shape * size rest := by
  induction shape with
  | nil => simp
  | cons n shape ih => rw [List.cons_append, size_cons, size_cons, ih, Nat.mul_assoc]

theorem size_pos {shape : Shape} (positive : ∀ n ∈ shape, 0 < n) : 0 < size shape := by
  induction shape with
  | nil => exact Nat.one_pos
  | cons n shape ih =>
      rw [List.forall_mem_cons] at positive
      exact Nat.mul_pos positive.1 (ih positive.2)

theorem le_size {shape : Shape} (positive : ∀ n ∈ shape, 0 < n) {n : Nat} (there : n ∈ shape) :
    n ≤ size shape := by
  obtain ⟨before, after, rfl⟩ := List.append_of_mem there
  rw [List.forall_mem_append, List.forall_mem_cons] at positive
  obtain ⟨first, -, last⟩ := positive
  rw [size_append, size_cons]
  calc n ≤ n * size after := Nat.le_mul_of_pos_right n (size_pos last)
    _ ≤ size before * (n * size after) := Nat.le_mul_of_pos_left _ (size_pos first)

/-- Without empty dimensions it is the number of elements alone that has to be a machine word. -/
theorem fits_iff_of_pos {shape : Shape} (positive : ∀ n ∈ shape, 0 < n) :
    Fits shape ↔ size shape < UInt64.size ∨ size shape ∈ shape := by
  refine ⟨fun fits => fits shape (List.prefix_refl shape), ?_⟩
  rintro h leading ⟨rest, rfl⟩
  rw [List.forall_mem_append] at positive
  obtain ⟨first, last⟩ := positive
  have left := size_pos first
  have right := size_pos last
  rw [size_append, List.mem_append] at h
  obtain small | early | late := h
  · exact .inl (Nat.lt_of_le_of_lt (Nat.le_mul_of_pos_right _ right) small)
  · have one : size rest = 1 := by
      have most : size leading * size rest ≤ size leading * 1 := by
        rw [Nat.mul_one]
        exact le_size first early
      exact Nat.le_antisymm (Nat.le_of_mul_le_mul_left most left) right
    rw [one, Nat.mul_one] at early
    exact .inr early
  · have one : size leading = 1 := by
      have most : size leading * size rest ≤ 1 * size rest := by
        rw [Nat.one_mul]
        exact le_size last late
      exact Nat.le_antisymm (Nat.le_of_mul_le_mul_right most right) left
    exact .inl (by rw [one]; decide)

/-- The enumeration lists all indices, or there are too many of them to count. -/
theorem enumerate?_of_fits {shape : Shape} (fits : Fits shape) :
    enumerate? shape = some (indices shape) := by
  rw [enumerate?, count?_eq_some_iff.mpr ⟨fits, rfl⟩, Option.map_some, indices_eq_digits]

theorem enumerate?_eq_none_iff {shape : Shape} : enumerate? shape = none ↔ ¬ Fits shape := by
  rw [enumerate?, Option.map_eq_none_iff, count?_eq_none_iff]

theorem enumerate?_eq_some_iff {shape : Shape} {listed : List (List Nat)} :
    enumerate? shape = some listed ↔ Fits shape ∧ indices shape = listed := by
  by_cases fits : Fits shape
  · simp [enumerate?_of_fits fits, fits]
  · simp [enumerate?_eq_none_iff.mpr fits, fits]

end TablePlan.Shape
