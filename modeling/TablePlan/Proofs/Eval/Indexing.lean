import TablePlan.Proofs.Eval.Stepping
import TablePlan.Proofs.Grid.Numbering

/-!
# Indexing by position and by index

Expressions count positions and indices from one. A grid is indexed by the position of an element or
by one index for every dimension, and both come to the same element: the one whose position is the
number of the index.
-/

namespace TablePlan

variable {σ : Type}

namespace Eval

open Value

/-- Integers that count from one what the numbers count from zero. -/
def Counts (places : List Int64) (numbers : List Nat) : Prop :=
  List.Forall₂ (fun (p : Int64) (i : Nat) => p.toInt = i + 1) places numbers

theorem positions_of_counts {places : List Int64} {shape : Shape} {index : List Nat}
    (counts : Counts places index) (inside : Shape.Inside shape index) :
    positions (places.map int) shape = .ok index := by
  induction inside generalizing places with
  | nil =>
      cases counts
      rfl
  | cons below _ ih =>
      cases counts with
      | cons first later =>
          rw [List.map_cons, positions, position_of_count first below, ih later]
          rfl

/-- A grid is indexed by the position of an element. -/
theorem index_position {g : Grid Value} {p : Int64} {k : Nat} {a : Value} (count : p.toInt = k + 1)
    (there : g.elements[k]? = some a) : index (grid g) [int p] = .ok a := by
  rw [index]
  exact elementOf_of_count count there

/-- Several indices, or none, are one for each dimension. -/
theorem index_grid (g : Grid Value) {vs : List Value} (several : ∀ v, vs ≠ [v]) :
    index (grid g) vs = if vs.length = g.shape.length then do
        match g.get? (← positions vs g.shape) with
        | some v => return v
        | none => throw (.unsupported "grid index")
      else .error (.mismatch "[]" (grid g :: vs)) :=
  match vs, several with
  | [], _ => rfl
  | [v], several => absurd rfl (several v)
  | _ :: _ :: _, _ => rfl

/-- A grid is indexed by one index for every dimension. If there is one dimension only, the index is
the position as well. -/
theorem index_places {g : Grid Value} {places : List Int64} {index : List Nat} {a : Value}
    (counts : Counts places index) (found : g.get? index = some a) :
    Eval.index (grid g) (places.map int) = .ok a := by
  obtain ⟨place, position, there⟩ := Option.bind_eq_some_iff.mp found
  have inside := Shape.inside_of_position? position
  -- A single index is read as a position, so the shape has to have one dimension for it.
  by_cases single : ∃ p, places = [p]
  · obtain ⟨p, rfl⟩ := single
    obtain ⟨i, rest, count, none, rfl⟩ := List.forall₂_cons_left_iff.mp counts
    obtain rfl := List.forall₂_nil_left_iff.mp none
    obtain ⟨n, sizes, below, none, shape⟩ := List.forall₂_cons_left_iff.mp inside
    obtain rfl := List.forall₂_nil_left_iff.mp none
    have same : i = place := by
      rw [shape, Shape.position?, if_pos below] at position
      simpa [Shape.position?] using position
    exact index_position (same ▸ count) there
  · have several (v : Value) : places.map int ≠ [v] := by
      intro one
      obtain ⟨p, rfl, -⟩ := List.map_eq_singleton_iff.mp one
      exact single ⟨p, rfl⟩
    have count : (places.map int).length = g.shape.length := by
      rw [List.length_map, counts.length_eq, inside.length_eq]
    rw [index_grid g several, if_pos count, positions_of_counts counts inside]
    dsimp only [bind, Except.bind]
    rw [found]
    rfl

/-- Indexing a grid comes to an element where the indices have the given values, whatever
expressions they and the grid are computed by. -/
def Finds (σ : Type) (g : Grid Value) (vs : List Value) (a : Value) : Prop :=
  ∀ (registry : Registry σ) (setting : Setting) (base : Expr) (indices : List Expr)
    (m m₁ m₂ : Machine σ), eval registry setting base m = (.ok (grid g), m₁) →
    evalItems registry setting indices m₁ = (.ok vs, m₂) →
    eval registry setting (.index base indices) m = (.ok a, m₂)

theorem finds_of_index {g : Grid Value} {vs : List Value} {a : Value}
    (found : index (grid g) vs = .ok a) : Finds σ g vs a := by
  intro registry setting base indices m m₁ m₂ first second
  rw [eval_index_of_ok first second, found]

/-- The indices of a shape are enumerated unless there are too many of them to count, which is a
matter of the number of elements alone if no dimension is empty. The enumeration lists each index
inside the shape once, the first dimension running fastest; its digits are found by repeated
division. The number of an index is its position, with or without stretching, so that a grid of the
shape has the same element at the index and at the position, also where the two are written in an
expression. -/
theorem indices_number_elements (σ : Type) (shape : Shape) :
    (Shape.enumerate? shape = none ↔ ¬ shape.Fits)
    ∧ ((∀ n ∈ shape, 0 < n) → (shape.Fits ↔ Shape.size shape < UInt64.size ∨
      Shape.size shape ∈ shape))
    ∧ ∀ listed, Shape.enumerate? shape = some listed →
      (∀ index, index ∈ listed ↔ Shape.Inside shape index)
      ∧ listed.Nodup
      ∧ listed.length = Shape.size shape
      ∧ listed.Pairwise Shape.Earlier
      ∧ ∀ (k : Nat) (index : List Nat), listed[k]? = some index →
        index = Shape.digits shape k
        ∧ Shape.operandPosition shape index = k
        ∧ ∀ g : Grid Value, g.shape = shape → g.WellFormed → ∃ a, g.elements[k]? = some a
          ∧ g.get? index = some a
          ∧ (∀ places, Counts places index → Finds σ g (places.map int) a)
          ∧ ∀ place, Counts [place] [k] → Finds σ g [int place] a := by
  refine ⟨Shape.enumerate?_eq_none_iff, Shape.fits_iff_of_pos, fun listed enumerated => ?_⟩
  obtain ⟨-, rfl⟩ := Shape.enumerate?_eq_some_iff.mp enumerated
  refine ⟨fun _ => Shape.mem_indices_iff, Shape.nodup_indices shape, Shape.length_indices shape,
    Shape.pairwise_indices shape, fun k index number => ?_⟩
  refine ⟨?digits, Shape.operandPosition_of_number number, ?elements⟩
  case digits => exact Shape.eq_digits_of_number number
  case elements =>
    rintro g rfl whole
    obtain ⟨a, there, found⟩ := whole.exists_of_number number
    refine ⟨a, there, found, fun places counts => ?_, fun place count => ?_⟩
    · exact finds_of_index (index_places counts found)
    · exact finds_of_index (index_position (List.forall₂_cons.mp count).1 there)

/-- The element in the second row and the second column of two rows is the fourth. -/
theorem fourth_of_two_rows :
    let g : Grid Value := ⟨[2, 3], [.int 1, .int 4, .int 2, .int 5, .int 3, .int 6]⟩
    let m : Machine Unit := ⟨Env.empty.push "g" (.grid g), ()⟩
    let at_ (places : List Int64) :=
      eval (.empty "1") .body (.index (.ident "g") (places.map fun p => .literal (.int p))) m
    (∃ listed, Shape.enumerate? [2, 3] = some listed ∧ listed[3]? = some [1, 1]) ∧ g.WellFormed
      ∧ at_ [2, 2] = (.ok (.int 5), m) ∧ at_ [4] = (.ok (.int 5), m) := by
  intro g m at_
  have whole : g.WellFormed := rfl
  obtain ⟨listed, enumerated, number⟩ :
      ∃ listed, Shape.enumerate? [2, 3] = some listed ∧ listed[3]? = some [1, 1] := ⟨_, rfl, rfl⟩
  obtain ⟨-, -, each⟩ := indices_number_elements Unit [2, 3]
  obtain ⟨-, -, -, -, numbered⟩ := each listed enumerated
  obtain ⟨-, -, elements⟩ := numbered 3 [1, 1] number
  obtain ⟨a, there, -, byIndex, byPosition⟩ := elements g rfl whole
  obtain rfl : .int 5 = a := Option.some.inj there
  have known : eval (.empty "1") .body (.ident "g") m = (.ok (.grid g), m) := eval_ident_of_get? rfl
  exact ⟨⟨listed, enumerated, number⟩, whole,
    byIndex [2, 2] (.cons rfl (.cons rfl .nil)) _ _ _ _ _ _ _ known rfl,
    byPosition 4 (.cons rfl .nil) _ _ _ _ _ _ _ known rfl⟩

end Eval

end TablePlan
