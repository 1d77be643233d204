import TablePlan.Proofs.Grid.Numbering

/-!
# Rows and columns

A matrix is written row by row and stored column by column. What is known of it is said by its
elements at every row and column: those of the rows it is made from, and those of the transposed
matrix with row and column exchanged. A matrix is determined by its shape and these elements.
-/

namespace TablePlan

variable {α : Type}

namespace Shape

theorem inside_matrix {n m : Nat} {index : List Nat} :
    Inside [n, m] index ↔ ∃ r < n, ∃ c < m, index = [r, c] := by
  constructor
  · rintro (_ | ⟨row, _ | ⟨column, _ | _⟩⟩)
    exact ⟨_, row, _, column, rfl⟩
  · rintro ⟨r, row, c, column, rfl⟩
    exact .cons row (.cons column .nil)

theorem operandPosition_matrix {n m r c : Nat} (row : r < n) (column : c < m) :
    operandPosition [n, m] [r, c] = r + n * c := by
  have first : (if n = 1 then 0 else r) = r := by
    split <;> omega
  have second : (if m = 1 then 0 else c) = c := by
    split <;> omega
  simp only [operandPosition, first, second, Nat.mul_zero, Nat.add_zero]

end Shape

/-- The `i`-th element of the `k`-th of several lists of one length. -/
theorem getElem?_flatMap_range {f : Nat → List α} {n m i k : Nat}
    (count : ∀ k < m, (f k).length = n) (below : i < n) (inside : k < m) :
    ((List.range m).flatMap f)[i + n * k]? = (f k)[i]? := by
  induction m with
  | zero => omega
  | succ m ih =>
      have before : ((List.range m).flatMap f).length = n * m := by
        rw [List.length_flatMap, List.map_congr_left fun k listed =>
          count k (Nat.lt_succ_of_lt (List.mem_range.mp listed))]
        simp [Nat.mul_comm]
      rw [List.range_succ, List.flatMap_append, List.flatMap_singleton]
      obtain earlier | rfl := Nat.lt_succ_iff_lt_or_eq.mp inside
      · rw [List.getElem?_append_left (before ▸ Shape.add_mul_lt below earlier)]
        exact ih (fun k listed => count k (Nat.lt_succ_of_lt listed)) earlier
      · rw [List.getElem?_append_right (by omega), before, Nat.add_sub_cancel]

namespace Grid

variable {g h t : Grid α} {n m : Nat}

/-! ### Elements of a matrix -/

theorem get?_matrix (shape : g.shape = [n, m]) {r c : Nat} (row : r < n) (column : c < m) :
    g.get? [r, c] = g.elements[r + n * c]? := by
  rw [get?, shape, Shape.position?_of_inside (Shape.inside_matrix.mpr ⟨r, row, c, column, rfl⟩),
    Shape.operandPosition_matrix row column, Option.bind_some]

theorem get?_eq_none (index : List Nat) (outside : ¬ Shape.Inside g.shape index) :
    g.get? index = none := by
  rw [get?, Option.bind_eq_none_iff]
  exact fun place found => absurd (Shape.inside_of_position? found) outside

/-- Outside of a matrix there is no element. -/
theorem get?_matrix_outside (shape : g.shape = [n, m]) {r c : Nat} (outside : ¬ (r < n ∧ c < m)) :
    g.get? [r, c] = none := by
  refine get?_eq_none _ fun inside => outside ?_
  rw [shape] at inside
  obtain ⟨_, row, _, column, same⟩ := Shape.inside_matrix.mp inside
  cases same
  exact ⟨row, column⟩

/-- Matrices of one size are the same if they have the same elements in all rows and columns. -/
theorem WellFormed.ext_matrix (whole : g.WellFormed) (whole' : h.WellFormed)
    (shape : g.shape = [n, m]) (shape' : h.shape = [n, m])
    (each : ∀ r c, g.get? [r, c] = h.get? [r, c]) : g = h := by
  refine whole.ext whole' (shape.trans shape'.symm) fun index inside => ?_
  rw [shape] at inside
  obtain ⟨r, -, c, -, rfl⟩ := Shape.inside_matrix.mp inside
  exact each r c

/-! ### Matrices from rows -/

/-- The element that rows have in a row and a column, if they reach that far. -/
def cell? (rows : List (List α)) (r c : Nat) : Option α :=
  rows[r]?.bind fun row => row[c]?

/-- All rows have the same number of elements. -/
def Rectangular (rows : List (List α)) : Prop :=
  ∀ row ∈ rows, ∀ other ∈ rows, row.length = other.length

theorem rectangular_iff {rows : List (List α)} :
    Rectangular rows ↔ ∃ width, ∀ row ∈ rows, row.length = width := by
  constructor
  · intro even
    cases rows with
    | nil => exact ⟨0, nofun⟩
    | cons first rest =>
        exact ⟨first.length, fun row inside => even row inside first List.mem_cons_self⟩
  · rintro ⟨width, each⟩ row inside other inside'
    rw [each row inside, each other inside']

/-- Rows of one width make a matrix with their columns one after another. -/
theorem ofRows?_of_width {rows : List (List α)} {width : Nat} (occupied : rows ≠ [])
    (even : ∀ row ∈ rows, row.length = width) :
    ofRows? rows = some ⟨[rows.length, width],
      (List.range width).flatMap fun c => rows.filterMap fun row => row[c]?⟩ := by
  cases rows with
  | nil => exact absurd rfl occupied
  | cons first rest =>
      obtain rfl := even first List.mem_cons_self
      simp only [ofRows?]
      rw [if_pos (List.all_eq_true.mpr fun row inside => beq_iff_eq.mpr (even row inside))]

theorem width_of_ofRows? {rows : List (List α)} (h : ofRows? rows = some g) :
    rows ≠ [] ∧ ∃ width, ∀ row ∈ rows, row.length = width := by
  cases rows with
  | nil => cases h
  | cons first rest =>
      simp only [ofRows?] at h
      split at h <;> cases h
      refine ⟨List.cons_ne_nil _ _, first.length, fun row inside => ?_⟩
      exact beq_iff_eq.mp (List.all_eq_true.mp ‹_› row inside)

theorem isSome_ofRows? (rows : List (List α)) :
    (ofRows? rows).isSome ↔ rows ≠ [] ∧ Rectangular rows := by
  rw [rectangular_iff]
  constructor
  · intro made
    obtain ⟨g, h⟩ := Option.isSome_iff_exists.mp made
    exact width_of_ofRows? h
  · rintro ⟨occupied, width, even⟩
    rw [ofRows?_of_width occupied even]
    rfl

/-- A column of rows that all reach it has their elements. -/
theorem column_of_rows {rows : List (List α)} {c : Nat} (reach : ∀ row ∈ rows, c < row.length) :
    (rows.filterMap fun row => row[c]?).length = rows.length
      ∧ ∀ r, (rows.filterMap fun row => row[c]?)[r]? = cell? rows r c := by
  induction rows with
  | nil => exact ⟨rfl, fun _ => rfl⟩
  | cons row rest ih =>
      obtain ⟨own, later⟩ := List.forall_mem_cons.mp reach
      have there : row[c]? = some row[c] := List.getElem?_eq_getElem own
      obtain ⟨count, each⟩ := ih later
      simp only [List.filterMap_cons, there]
      refine ⟨congrArg Nat.succ count, fun r => ?_⟩
      cases r with
      | zero => exact there.symm
      | succ r => exact each r

/-- The matrix has the size of the rows, and their element in every row and column. -/
theorem ofRows?_spec {rows : List (List α)} {width : Nat} (h : ofRows? rows = some g)
    (even : ∀ row ∈ rows, row.length = width) :
    g.shape = [rows.length, width] ∧ ∀ r c, g.get? [r, c] = cell? rows r c := by
  rw [ofRows?_of_width (width_of_ofRows? h).1 even] at h
  cases h
  have reach {c : Nat} (inside : c < width) : ∀ row ∈ rows, c < row.length :=
    fun row listed => (even row listed).symm ▸ inside
  refine ⟨rfl, fun r c => ?_⟩
  by_cases inside : r < rows.length ∧ c < width
  · obtain ⟨row, below⟩ := inside
    rw [get?_matrix rfl row below]
    have tall : ∀ c < width, (rows.filterMap fun row => row[c]?).length = rows.length :=
      fun c inside => (column_of_rows (reach inside)).1
    exact (getElem?_flatMap_range tall row below).trans ((column_of_rows (reach below)).2 r)
  · rw [get?_matrix_outside rfl inside, cell?, eq_comm, Option.bind_eq_none_iff]
    intro row there
    obtain ⟨below, rfl⟩ := List.getElem?_eq_some_iff.mp there
    have := even _ (List.getElem_mem below)
    exact List.getElem?_eq_none (by omega)

/-! ### Rows and columns exchanged -/

/-- Rows of the given width, read column by column. -/
def exchanged (width : Nat) : List (List α) → List (List α)
  | [] => List.replicate width []
  | row :: rest => List.zipWith (· :: ·) row (exchanged width rest)

/-- An element put in front of every column is the first row, and the others move down. -/
theorem cell?_zipWith_cons {row : List α} {columns : List (List α)}
    (count : row.length = columns.length) (c : Nat) :
    cell? (List.zipWith (· :: ·) row columns) c 0 = row[c]?
      ∧ ∀ r, cell? (List.zipWith (· :: ·) row columns) c (r + 1) = cell? columns c r := by
  simp only [cell?, List.getElem?_zipWith]
  by_cases below : c < row.length
  · rw [List.getElem?_eq_getElem below, List.getElem?_eq_getElem (count ▸ below)]
    exact ⟨rfl, fun _ => rfl⟩
  · rw [List.getElem?_eq_none (by omega), List.getElem?_eq_none (by omega)]
    exact ⟨rfl, fun _ => rfl⟩

/-- The exchanged rows have the columns of the rows as their rows. -/
theorem exchanged_spec {width : Nat} {rows : List (List α)}
    (even : ∀ row ∈ rows, row.length = width) :
    (exchanged width rows).length = width
      ∧ (∀ column ∈ exchanged width rows, column.length = rows.length)
      ∧ ∀ r c, cell? (exchanged width rows) c r = cell? rows r c := by
  induction rows with
  | nil =>
      refine ⟨List.length_replicate .., fun column inside => ?_, fun r c => ?_⟩
      · exact congrArg List.length (List.eq_of_mem_replicate inside)
      · rw [exchanged, cell?, List.getElem?_replicate]
        split <;> rfl
  | cons row rest ih =>
      obtain ⟨own, later⟩ := List.forall_mem_cons.mp even
      obtain ⟨count, tall, each⟩ := ih later
      refine ⟨by simp [exchanged, own, count], fun column inside => ?_, fun r c => ?_⟩
      · obtain ⟨c, below, rfl⟩ := List.mem_iff_getElem.mp inside
        simp only [exchanged, List.getElem_zipWith, List.length_cons]
        exact congrArg Nat.succ (tall _ (List.getElem_mem _))
      · obtain ⟨first, others⟩ := cell?_zipWith_cons (own.trans count.symm) c
        cases r with
        | zero => exact first
        | succ r => exact (others r).trans (each r c)

/-! ### Transposing -/

theorem transposed?_elements (shape : g.shape = [n, m]) (made : g.transposed? = some t) {r c : Nat}
    (row : r < n) (column : c < m) : t.elements[c + m * r]? = g.elements[r + n * c]? := by
  rw [transposed?, shape] at made
  obtain ⟨elements, found, made⟩ := Option.bind_eq_some_iff.mp made
  cases made
  -- The columns of the transposed matrix are the rows of `g`, each of whose elements is `n` places
  -- after the one before.
  have place : ((List.range n).flatMap fun r => (List.range m).map fun c => c * n + r)[c + m * r]?
      = some (c * n + r) := by
    rw [getElem?_flatMap_range (by simp) column row, List.getElem?_map, List.getElem?_range column]
    rfl
  obtain ⟨a, there, own⟩ := getElem?_of_forall₂ (mapM_some_iff.mp found).flip place
  rw [there, ← own, Nat.mul_comm, Nat.add_comm]

/-- A matrix with all its elements can be transposed, and has them in the rows of their columns
then. -/
theorem transposed?_spec (whole : g.WellFormed) (shape : g.shape = [n, m]) :
    ∃ t, g.transposed? = some t ∧ t.shape = [m, n] ∧ t.WellFormed
      ∧ ∀ r c, t.get? [c, r] = g.get? [r, c] := by
  obtain ⟨t, made, shape', whole', -⟩ := whole.exists_transposed? shape
  refine ⟨t, made, shape', whole', fun r c => ?_⟩
  by_cases inside : r < n ∧ c < m
  · rw [get?_matrix shape' inside.2 inside.1, get?_matrix shape inside.1 inside.2]
    exact transposed?_elements shape made inside.1 inside.2
  · rw [get?_matrix_outside shape inside, get?_matrix_outside shape' fun h => inside h.symm]

/-- Transposing twice changes nothing. -/
theorem transposed?_transposed? (whole : g.WellFormed) (shape : g.shape = [n, m])
    (made : g.transposed? = some t) : t.transposed? = some g := by
  obtain ⟨_, made', shape', whole', each⟩ := transposed?_spec whole shape
  obtain rfl := Option.some.inj (made.symm.trans made')
  obtain ⟨u, back, shape'', whole'', each'⟩ := transposed?_spec whole' shape'
  rw [back, whole''.ext_matrix whole shape'' shape fun r c => (each' c r).trans (each r c)]

/-- The transposed matrix is made from the exchanged rows. -/
theorem transposed?_of_rows {rows : List (List α)} {width : Nat} (occupied : rows ≠ [])
    (even : ∀ row ∈ rows, row.length = width) (wide : 0 < width) :
    (ofRows? rows).bind transposed? = ofRows? (exchanged width rows) := by
  obtain ⟨count, tall, entries⟩ := exchanged_spec even
  have occupied' : exchanged width rows ≠ [] := by
    rintro none
    rw [none] at count
    exact wide.ne count
  have made := ofRows?_of_width occupied even
  have made' := ofRows?_of_width occupied' tall
  obtain ⟨shape, each⟩ := ofRows?_spec made even
  obtain ⟨shape', each'⟩ := ofRows?_spec made' tall
  obtain ⟨t, exchange, shape'', whole, swapped⟩ :=
    transposed?_spec (wellFormed_of_ofRows? made).1 shape
  rw [made, made', Option.bind_some, exchange]
  refine congrArg some (whole.ext_matrix (wellFormed_of_ofRows? made').1 shape'' ?_ fun c r => ?_)
  · rw [shape', count]
  · rw [swapped, each, each', entries]

/-- A matrix keeps its rows and columns apart. It can be made from rows that are all equally long,
if there is one, and has their elements where they stand. Transposing exchanges the two indices of
every element, so doing it twice changes nothing; and unless there are no columns, the transposed
matrix is the one that is made from the exchanged rows. -/
theorem rows_and_columns (α : Type) :
    (∀ rows : List (List α), (ofRows? rows).isSome ↔ rows ≠ [] ∧ Rectangular rows)
      ∧ (∀ (rows : List (List α)) (g : Grid α), ofRows? rows = some g →
        (∀ r c, g.get? [r, c] = cell? rows r c)
          ∧ ∀ index, (∀ r c, index ≠ [r, c]) → g.get? index = none)
      ∧ (∀ (g : Grid α) (n m : Nat), g.WellFormed → g.shape = [n, m] →
        ∃ t, g.transposed? = some t ∧ (∀ r c, t.get? [c, r] = g.get? [r, c])
          ∧ t.transposed? = some g)
      ∧ ∀ (rows : List (List α)) (width : Nat), rows ≠ [] → (∀ row ∈ rows, row.length = width) →
        0 < width → (ofRows? rows).bind transposed? = ofRows? (exchanged width rows) := by
  refine ⟨isSome_ofRows?, fun rows g made => ?rows, fun g n m whole shape => ?transposed,
    fun rows width occupied even wide => transposed?_of_rows occupied even wide⟩
  case rows =>
    obtain ⟨-, width, even⟩ := width_of_ofRows? made
    obtain ⟨shape, each⟩ := ofRows?_spec made even
    refine ⟨each, fun index other => get?_eq_none index fun inside => ?_⟩
    rw [shape] at inside
    obtain ⟨r, -, c, -, same⟩ := Shape.inside_matrix.mp inside
    exact other r c same
  case transposed =>
    obtain ⟨t, made, -, -, each⟩ := transposed?_spec whole shape
    exact ⟨t, made, each, transposed?_transposed? whole shape made⟩

/-- Two rows of three make the matrix whose transposed one is made from three rows of two. -/
theorem two_rows_of_three :
    let rows : List (List Nat) := [[1, 2, 3], [4, 5, 6]]
    let g : Grid Nat := ⟨[2, 3], [1, 4, 2, 5, 3, 6]⟩
    ofRows? rows = some g ∧ g.WellFormed ∧ g.get? [0, 2] = some 3 ∧ g.get? [2, 0] = none
      ∧ (∃ t, g.transposed? = some t ∧ t.get? [2, 0] = some 3 ∧ t.transposed? = some g)
      ∧ (ofRows? rows).bind transposed? = ofRows? [[1, 4], [2, 5], [3, 6]] := by
  intro rows g
  obtain ⟨-, elements, transposed, exchange⟩ := rows_and_columns Nat
  have made : ofRows? rows = some g := rfl
  have whole : g.WellFormed := rfl
  obtain ⟨each, -⟩ := elements rows g made
  obtain ⟨t, exchanges, swapped, back⟩ := transposed g 2 3 whole rfl
  refine ⟨made, whole, each 0 2, each 2 0, ⟨t, exchanges, ?_, back⟩, ?_⟩
  · rw [swapped, each]
    rfl
  · exact exchange rows 3 (List.cons_ne_nil _ _) (by decide) (by decide)

end Grid

end TablePlan
