import TablePlan.Grid
import TablePlan.Proofs.Indices

/-!
# Elements of grids

Every index of a shape has a position among as many elements as the shape asks for, also where the
shape is stretched. A matrix that is made from rows or transposed has all elements its shape asks
for, and each of them comes from the rows or the matrix.
-/

namespace TablePlan

namespace Shape

/-- A shape with a position has no empty dimension. -/
theorem positive_of_lt_size {shape : Shape} {place : Nat} (below : place < size shape) {n : Nat}
    (inside : n ∈ shape) : 0 < n := by
  have positive : 0 < size shape := Nat.zero_lt_of_lt below
  clear below
  induction shape with
  | nil => cases inside
  | cons m shape ih =>
      rw [size_cons] at positive
      obtain rfl | later := List.mem_cons.mp inside
      · exact Nat.pos_of_mul_pos_right positive
      · exact ih later (Nat.pos_of_mul_pos_left positive)

theorem add_mul_lt {i n k m : Nat} (first : i < n) (rest : k < m) : i + n * k < n * m := by
  have step : n * k + n ≤ n * m := by
    rw [← Nat.mul_succ]
    exact Nat.mul_le_mul_left n rest
  omega

/-- Where a shape is stretched, every index of the larger one has a position in it. -/
theorem operandPosition_lt {shape common : Shape} {index : List Nat}
    (stretches : Stretches shape common) (inside : index ∈ indices common) :
    operandPosition shape index < size shape := by
  induction shape generalizing common index with
  | nil => exact Nat.one_pos
  | cons n shape ih =>
      cases common with
      | nil => exact stretches.elim
      | cons k common =>
          obtain ⟨rest, later, i, below, rfl⟩ := by simpa [indices] using inside
          obtain ⟨sizes, stretches⟩ := stretches
          rw [operandPosition, size_cons]
          refine add_mul_lt ?_ (ih stretches later)
          split <;> omega

/-- An index with a place below every size has a position. -/
theorem exists_position? {shape : Shape} {index : List Nat}
    (below : List.Forall₂ (fun i n => i < n) index shape) :
    ∃ place < size shape, position? shape index = some place := by
  induction below with
  | nil => exact ⟨0, Nat.one_pos, rfl⟩
  | @cons i n index shape first _ ih =>
      obtain ⟨place, inside, found⟩ := ih
      exact ⟨i + n * place, add_mul_lt first inside, by rw [position?, if_pos first, found]; rfl⟩

end Shape

namespace Grid

variable {α : Type}

/-- A grid with all its elements has one at every index with a place below every size. -/
theorem WellFormed.exists_get? {g : Grid α} (whole : g.WellFormed) {index : List Nat}
    (below : List.Forall₂ (fun i n => i < n) index g.shape) :
    ∃ a ∈ g.elements, g.get? index = some a := by
  obtain ⟨place, inside, found⟩ := Shape.exists_position? below
  rw [whole] at inside
  refine ⟨g.elements[place], List.getElem_mem inside, ?_⟩
  rw [get?, found]
  exact List.getElem?_eq_getElem inside

/-! ### Matrices -/

/-- A matrix made from rows has the elements of the rows and no others. -/
theorem wellFormed_of_ofRows? {rows : List (List α)} {g : Grid α} (h : ofRows? rows = some g) :
    g.WellFormed ∧ ∀ a ∈ g.elements, ∃ row ∈ rows, a ∈ row := by
  cases rows with
  | nil => cases h
  | cons first rest =>
      simp only [ofRows?] at h
      split at h <;> cases h
      rename_i equal
      have width (row : List α) (inside : row ∈ first :: rest) : row.length = first.length := by
        simpa using List.all_eq_true.mp equal row inside
      generalize first :: rest = rows at width
      constructor
      · have column (c : Nat) (inside : c ∈ List.range first.length) :
            (rows.filterMap fun row => row[c]?).length = rows.length := by
          rw [List.length_filterMap_eq_countP, List.countP_eq_length]
          intro row there
          simpa [width row there] using List.mem_range.mp inside
        rw [WellFormed, List.length_flatMap, List.map_congr_left column]
        simp [Nat.mul_comm]
      · intro a inside
        obtain ⟨c, -, listed⟩ := List.mem_flatMap.mp inside
        obtain ⟨row, there, own⟩ := List.mem_filterMap.mp listed
        exact ⟨row, there, List.mem_of_getElem? own⟩

theorem matrix_of_transposed? {g t : Grid α} (h : g.transposed? = some t) :
    ∃ rows columns, g.shape = [rows, columns] := by
  unfold transposed? at h
  split at h
  · exact ⟨_, _, ‹_›⟩
  · cases h

/-- A matrix with all its elements can be transposed, and has the same elements then. -/
theorem WellFormed.exists_transposed? {g : Grid α} (whole : g.WellFormed) {rows columns : Nat}
    (matrix : g.shape = [rows, columns]) : ∃ t, g.transposed? = some t ∧ t.shape = [columns, rows]
      ∧ t.WellFormed ∧ ∀ a ∈ t.elements, a ∈ g.elements := by
  let places := (List.range rows).flatMap fun r => (List.range columns).map fun c => c * rows + r
  have below (place : Nat) (inside : place ∈ places) : place < g.elements.length := by
    obtain ⟨r, row, c, column, rfl⟩ := by simpa [places] using inside
    rw [← whole, matrix, Nat.add_comm, Nat.mul_comm, Shape.size_cons, Shape.size_cons,
      Shape.size_nil, Nat.mul_one]
    exact Shape.add_mul_lt row column
  obtain ⟨elements, found⟩ := exists_mapM_some (f := fun i => g.elements[i]?) fun place inside =>
    ⟨_, List.getElem?_eq_getElem (below place inside)⟩
  have each := mapM_some_iff.mp found
  refine ⟨⟨[columns, rows], elements⟩, ?_, rfl, ?_, fun a inside => ?_⟩
  · rw [transposed?, matrix]
    exact congrArg (Option.bind · _) found
  · rw [WellFormed, ← each.length_eq]
    simp [places, Nat.mul_comm]
  · obtain ⟨place, -, own⟩ := exists_of_mem_right each inside
    exact List.mem_of_getElem? own

end Grid

end TablePlan
