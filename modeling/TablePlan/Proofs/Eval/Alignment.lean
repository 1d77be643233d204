import TablePlan.Proofs.Eval.Broadcast
import TablePlan.Proofs.Value.WellFormed

/-!
# Broadcasting by index

Broadcasting applies a function at every index of the common shape to the elements that the
arguments have there. The result has the common shape and at every index the result for that index;
the first index without one, the first dimension running fastest, decides the failure.
-/

namespace TablePlan

/-! ### Indices -/

namespace Shape

/-- An index has a place below the size of every dimension. -/
def Inside (shape : Shape) (index : List Nat) : Prop :=
  List.Forall₂ (· < ·) index shape

/-- One index comes before another where the first dimension runs fastest: the last dimension at
which they differ decides. -/
def Earlier : List Nat → List Nat → Prop
  | i :: index, j :: other => Earlier index other ∨ (index = other ∧ i < j)
  | _, _ => False

/-- The index in a shape that is stretched: dimensions of size one have one place only, and the
places of dimensions beyond the shape are left out. -/
def stretched (shape : Shape) (index : List Nat) : List Nat :=
  List.zipWith (fun n i => if n = 1 then 0 else i) shape index

theorem mem_indices_iff {shape : Shape} {index : List Nat} :
    index ∈ indices shape ↔ Inside shape index := by
  induction shape generalizing index with
  | nil => simp [indices, Inside]
  | cons n shape ih =>
      simp only [indices, List.mem_flatMap, List.mem_map, List.mem_range, ih]
      constructor
      · rintro ⟨rest, later, i, below, rfl⟩
        exact .cons below later
      · intro inside
        cases inside with
        | cons below later => exact ⟨_, later, _, below, rfl⟩

theorem Earlier.asymm {index other : List Nat} (h : Earlier index other) :
    ¬ Earlier other index := by
  induction index generalizing other with
  | nil => exact h.elim
  | cons i index ih =>
      cases other with
      | nil => exact h.elim
      | cons j other =>
          rintro (back | ⟨rfl, more⟩)
          · obtain forth | ⟨rfl, -⟩ := h
            · exact ih forth back
            · exact ih back back
          · obtain forth | ⟨-, less⟩ := h
            · exact ih forth forth
            · omega

/-- The indices of a shape are enumerated with the first dimension running fastest. -/
theorem pairwise_indices (shape : Shape) : (indices shape).Pairwise Earlier := by
  induction shape with
  | nil => exact List.pairwise_singleton _ _
  | cons n shape ih =>
      refine List.pairwise_flatMap.mpr ⟨fun rest _ => ?_, ih.imp fun earlier => ?_⟩
      · exact List.pairwise_map.mpr (List.pairwise_lt_range.imp fun less => .inr ⟨rfl, less⟩)
      · rintro x first y second
        obtain ⟨i, -, rfl⟩ := List.mem_map.mp first
        obtain ⟨j, -, rfl⟩ := List.mem_map.mp second
        exact .inl earlier

/-- In the enumeration of the indices, those before one are the earlier ones. -/
theorem mem_before_iff {shape : Shape} {before after : List (List Nat)} {index other : List Nat}
    (split : indices shape = before ++ index :: after) :
    other ∈ before ↔ Inside shape other ∧ Earlier other index := by
  have ordered := pairwise_indices shape
  rw [split, List.pairwise_append, List.pairwise_cons] at ordered
  obtain ⟨-, ⟨following, -⟩, preceding⟩ := ordered
  constructor
  · intro listed
    refine ⟨mem_indices_iff.mp ?_, preceding other listed index List.mem_cons_self⟩
    rw [split]
    exact List.mem_append_left _ listed
  · rintro ⟨inside, earlier⟩
    have listed := mem_indices_iff.mpr inside
    rw [split, List.mem_append, List.mem_cons] at listed
    obtain before | rfl | after := listed
    · exact before
    · exact absurd earlier earlier.asymm
    · exact absurd earlier (following other after).asymm

/-- A stretched shape has its own index at the position that an index of the common shape means. -/
theorem position?_stretched {shape common : Shape} {index : List Nat}
    (stretches : Stretches shape common) (inside : Inside common index) :
    position? shape (stretched shape index) = some (operandPosition shape index) := by
  induction shape generalizing common index with
  | nil => rfl
  | cons n shape ih =>
      cases inside with
      | nil => exact stretches.elim
      | @cons i k index common below later =>
          have place : (if n = 1 then 0 else i) < n := by
            have := stretches.1
            split <;> omega
          change position? (n :: shape) ((if n = 1 then 0 else i) :: stretched shape index) = _
          rw [position?, if_pos place, ih stretches.2 later, operandPosition]
          rfl

end Shape

/-! ### Elements -/

namespace Value

/-- The element at an index of a shape that the value is stretched to; a scalar is its own element
everywhere. -/
def elementAt? (v : Value) (index : List Nat) : Option Value :=
  if v.isCollection then
    (Shape.position? v.shape (Shape.stretched v.shape index)).bind fun place => v.elements[place]?
  else some v

/-- The values are the elements that several arguments have at an index. -/
def Aligned (args : List Value) (index : List Nat) (vs : List Value) : Prop :=
  List.Forall₂ (fun v e => v.elementAt? index = some e) args vs

/-- A list of one dimension or a grid of several, with as many elements as they ask for. -/
inductive IsArray : Shape → Value → Prop
  | list (items : List Value) : IsArray [items.length] (list items)
  | grid {g : Grid Value} (dimensions : 2 ≤ g.shape.length) (whole : g.WellFormed) :
    IsArray g.shape (grid g)

theorem alignedElement?_eq {v : Value} {common : Shape} {index : List Nat}
    (stretches : Shape.Stretches v.shape common) (inside : Shape.Inside common index) :
    Eval.alignedElement? v index = v.elementAt? index := by
  rw [Eval.alignedElement?, elementAt?, Shape.position?_stretched stretches inside]
  rfl

namespace IsArray

variable {common : Shape} {v : Value}

theorem shape (array : IsArray common v) : v.shape = common := by
  cases array <;> rfl

theorem collection (array : IsArray common v) : v.isCollection = true := by
  cases array <;> rfl

theorem count (array : IsArray common v) : v.elements.length = Shape.size common := by
  cases array with
  | list items => simp
  | grid dimensions whole => exact whole.symm

theorem ofShape_eq (array : IsArray common v) : ofShape common v.elements = v := by
  cases array with
  | list items => rfl
  | @grid g dimensions whole =>
      obtain ⟨shape, elements⟩ := g
      match shape, dimensions with
      | _ :: _ :: _, _ => rfl

/-- A shape with a dimension and as many elements as it asks for make a list or a grid. -/
theorem of_elements {items : List Value} (proper : common ≠ [])
    (count : items.length = Shape.size common) :
    IsArray common (ofShape common items) ∧ (ofShape common items).elements = items := by
  match common, proper with
  | [n], _ =>
      obtain rfl : n = items.length := by simpa using count.symm
      exact ⟨.list items, rfl⟩
  | n :: m :: rest, _ => exact ⟨.grid (g := ⟨n :: m :: rest, items⟩) (by simp) count.symm, rfl⟩

theorem elementAt?_eq (array : IsArray common v) {index : List Nat}
    (inside : Shape.Inside common index) :
    v.elementAt? index = v.elements[Shape.operandPosition common index]? := by
  rw [← alignedElement?_eq (array.shape ▸ Shape.stretches_refl common) inside,
    Eval.alignedElement?, if_pos array.collection, array.shape]

/-- At the indices of its shape stand the elements of a list or a grid, in order. -/
theorem forall₂_indices (array : IsArray common v) :
    List.Forall₂ (fun index e => v.elementAt? index = some e) (Shape.indices common) v.elements := by
  refine (List.forall₂_and_left _ _).mpr ⟨fun index => Shape.mem_indices_iff.mp,
    Shape.forall₂_indices array.count⟩ |>.imp ?_
  rintro index e ⟨inside, there⟩
  rw [array.elementAt?_eq inside, there]

end IsArray

variable {args vs : List Value} {common : Shape} {index : List Nat}

theorem aligned_iff (stretches : ∀ v ∈ args, Shape.Stretches v.shape common)
    (inside : Shape.Inside common index) :
    Aligned args index vs ↔ (args.mapM fun arg => Eval.alignedElement? arg index) = some vs := by
  have same : (args.mapM fun arg => Eval.alignedElement? arg index)
      = args.mapM fun arg => arg.elementAt? index :=
    mapM_congr_forall₂ (List.forall₂_same.mpr fun v there =>
      alignedElement?_eq (stretches v there) inside)
  rw [same, mapM_some_iff]
  rfl

end Value

/-! ### Results -/

namespace Eval

open Value (Aligned IsArray)
open Shape (Inside Earlier)

variable {f : List Value → Except EvalError Value} {args : List Value} {common : Shape}

/-- The function has this result on the elements of the arguments at an index. -/
def ResultAt (f : List Value → Except EvalError Value) (args : List Value) (index : List Nat)
    (result : Except EvalError Value) : Prop :=
  ∃ vs, Aligned args index vs ∧ f vs = result

/-- What broadcasting computes at an index. -/
def applyAt (f : List Value → Except EvalError Value) (args : List Value) (index : List Nat) :
    Except EvalError Value :=
  match args.mapM fun arg => alignedElement? arg index with
  | some elements => f elements
  | none => .error .malformedGrid

theorem resultAt_iff (whole : ∀ v ∈ args, v.WellFormed)
    (joined : Shape.common? (args.map Value.shape) = some common) {index : List Nat}
    (inside : Inside common index) {result : Except EvalError Value} :
    ResultAt f args index result ↔ applyAt f args index = result := by
  have stretches (v : Value) (there : v ∈ args) :=
    (Shape.common?_iff.mp joined).1 _ (List.mem_map_of_mem there)
  obtain ⟨vs, found, -, -⟩ :=
    Value.WellFormed.exists_aligned whole joined (Shape.mem_indices_iff.mpr inside)
  simp only [ResultAt, applyAt, Value.aligned_iff stretches inside, found, Option.some.injEq,
    exists_eq_left']

theorem broadcast_eq (joined : Shape.common? (args.map Value.shape) = some common)
    (proper : common ≠ []) (fits : common.Fits) :
    broadcast f args = Value.ofShape common <$> (Shape.indices common).mapM (applyAt f args) := by
  simp only [broadcast, joined]
  cases common with
  | nil => exact absurd rfl proper
  | cons n rest =>
      rw [Shape.enumerate?_of_fits fits]
      rfl

/-- Where the indices of the common shape are too many to count, the function is applied at none. -/
theorem broadcast_of_not_fits (joined : Shape.common? (args.map Value.shape) = some common)
    (uncounted : ¬ common.Fits) : broadcast f args = .error (.stopped (.sizes common)) := by
  simp only [broadcast, joined]
  cases common with
  | nil => exact absurd Shape.fits_scalar uncounted
  | cons n rest =>
      simp only [Shape.enumerate?_eq_none_iff.mpr uncounted]
      rfl

theorem broadcast_ok_iff_mapM (joined : Shape.common? (args.map Value.shape) = some common)
    (proper : common ≠ []) (fits : common.Fits) {v : Value} :
    broadcast f args = .ok v
      ↔ IsArray common v ∧ (Shape.indices common).mapM (applyAt f args) = .ok v.elements := by
  rw [broadcast_eq joined proper fits]
  cases ran : (Shape.indices common).mapM (applyAt f args) with
  | error e => simp [Functor.map, Except.map]
  | ok items =>
      have count : items.length = Shape.size common := by
        rw [← (mapM_ok_iff.mp ran).length_eq, Shape.length_indices]
      obtain ⟨array, same⟩ := IsArray.of_elements proper count
      simp only [Functor.map, Except.map, Except.ok.injEq]
      constructor
      · rintro rfl
        exact ⟨array, same.symm⟩
      · rintro ⟨array', rfl⟩
        exact array'.ofShape_eq

/-- Broadcasting comes to the array of the results, each at its index. -/
theorem broadcast_ok_iff (whole : ∀ v ∈ args, v.WellFormed)
    (joined : Shape.common? (args.map Value.shape) = some common) (proper : common ≠ [])
    (fits : common.Fits) {v : Value} :
    broadcast f args = .ok v ↔ IsArray common v ∧ ∀ index, Inside common index →
      ∃ e, v.elementAt? index = some e ∧ ResultAt f args index (.ok e) := by
  rw [broadcast_ok_iff_mapM joined proper fits, mapM_ok_iff]
  refine and_congr_right fun array => ⟨fun ran index inside => ?_, fun each => ?_⟩
  · have both := array.forall₂_indices.mp (fun _ _ => And.intro) ran
    obtain ⟨e, -, there, result⟩ := exists_of_mem_left both (Shape.mem_indices_iff.mpr inside)
    exact ⟨e, there, (resultAt_iff whole joined inside).mpr result⟩
  · have listed := (List.forall₂_and_left _ _).mpr
      ⟨fun _ => Shape.mem_indices_iff.mp, array.forall₂_indices⟩
    refine listed.imp fun index e ⟨inside, there⟩ => ?_
    obtain ⟨e', there', result⟩ := each index inside
    cases there.symm.trans there'
    exact (resultAt_iff whole joined inside).mp result

/-- Broadcasting comes to a value where the function has one at every index. -/
theorem exists_broadcast_iff (whole : ∀ v ∈ args, v.WellFormed)
    (joined : Shape.common? (args.map Value.shape) = some common) (proper : common ≠ [])
    (fits : common.Fits) :
    (∃ v, broadcast f args = .ok v)
      ↔ ∀ index, Inside common index → ∃ e, ResultAt f args index (.ok e) := by
  constructor
  · rintro ⟨v, ran⟩ index inside
    obtain ⟨e, -, result⟩ := ((broadcast_ok_iff whole joined proper fits).mp ran).2 index inside
    exact ⟨e, result⟩
  · intro each
    obtain ⟨items, ran⟩ := exists_mapM_ok fun index listed =>
      have inside := Shape.mem_indices_iff.mp listed
      (each index inside).imp fun _ => (resultAt_iff whole joined inside).mp
    exact ⟨Value.ofShape common items, by rw [broadcast_eq joined proper fits, ran]; rfl⟩

/-- Broadcasting fails as the function does at the first index where it fails. -/
theorem broadcast_error_iff (whole : ∀ v ∈ args, v.WellFormed)
    (joined : Shape.common? (args.map Value.shape) = some common) (proper : common ≠ [])
    (fits : common.Fits) {e : EvalError} :
    broadcast f args = .error e
      ↔ ∃ index, Inside common index ∧ ResultAt f args index (.error e)
        ∧ ∀ other, Inside common other → Earlier other index →
          ∃ w, ResultAt f args other (.ok w) := by
  have failed : broadcast f args = .error e
      ↔ (Shape.indices common).mapM (applyAt f args) = .error e := by
    rw [broadcast_eq joined proper fits]
    cases (Shape.indices common).mapM (applyAt f args) <;> simp [Functor.map, Except.map]
  rw [failed, mapM_error_iff]
  constructor
  · rintro ⟨before, index, after, split, here, earlier⟩
    have inside : Inside common index := Shape.mem_indices_iff.mp (by simp [split])
    refine ⟨index, inside, (resultAt_iff whole joined inside).mpr here, fun other below first => ?_⟩
    exact (earlier other ((Shape.mem_before_iff split).mpr ⟨below, first⟩)).imp
      fun _ => (resultAt_iff whole joined below).mpr
  · rintro ⟨index, inside, here, earlier⟩
    obtain ⟨before, after, split⟩ := List.append_of_mem (Shape.mem_indices_iff.mpr inside)
    refine ⟨before, index, after, split, (resultAt_iff whole joined inside).mp here,
      fun other listed => ?_⟩
    obtain ⟨below, first⟩ := (Shape.mem_before_iff split).mp listed
    exact (earlier other below first).imp fun _ => (resultAt_iff whole joined below).mp

/-- A function without effects is broadcast over well-formed arguments by index. Arguments without
a common shape are refused, and those without dimensions are passed on as they are. If the elements of
the common shape are too many to count, the function is not applied at all. Otherwise every index of
the common shape has an element in each argument; broadcasting succeeds where the function does at
every index, with the list or grid of the results, and it fails as the function does at the first
index where it fails. In the evaluator a function that leaves variables and state alone is broadcast
in the same way. -/
theorem broadcast_by_index (whole : ∀ v ∈ args, v.WellFormed)
    (f : List Value → Except EvalError Value) :
    (Shape.common? (args.map Value.shape) = none →
        broadcast f args = .error (.shapeMismatch (args.map Value.shape)))
    ∧ ((∀ v ∈ args, v.shape = []) → broadcast f args = f args)
    ∧ (∀ common, Shape.common? (args.map Value.shape) = some common → ¬ common.Fits →
        broadcast f args = .error (.stopped (.sizes common)))
    ∧ (∀ common, Shape.common? (args.map Value.shape) = some common →
        ¬ (∀ v ∈ args, v.shape = []) → common.Fits →
        (∀ index, Inside common index → ∃ vs, Aligned args index vs)
        ∧ ((∃ v, broadcast f args = .ok v)
            ↔ ∀ index, Inside common index → ∃ e, ResultAt f args index (.ok e))
        ∧ (∀ v, broadcast f args = .ok v ↔ IsArray common v ∧ ∀ index, Inside common index →
            ∃ e, v.elementAt? index = some e ∧ ResultAt f args index (.ok e))
        ∧ ∀ e, broadcast f args = .error e
            ↔ ∃ index, Inside common index ∧ ResultAt f args index (.error e)
              ∧ ∀ other, Inside common other → Earlier other index →
                ∃ w, ResultAt f args other (.ok w))
    ∧ ∀ {σ : Type} (env : Env) (op : List Value → EvalM σ Value),
        (∀ vs, EvalM.Gives env (op vs) (f vs)) →
        EvalM.Gives env (broadcast op args) (broadcast f args) := by
  have scalars : Shape.common? (args.map Value.shape) = some [] ↔ ∀ v ∈ args, v.shape = [] := by
    rw [Shape.common?_eq_nil_iff, List.forall_mem_map]
  refine ⟨fun none => ?_, fun single => ?_, fun common => broadcast_of_not_fits,
    fun common joined several fits => ?_, fun _ _ gives => .broadcast gives args⟩
  · simp only [broadcast, none]
    rfl
  · simp only [broadcast, scalars.mpr single]
  · have proper : common ≠ [] := by
      rintro rfl
      exact several (scalars.mp joined)
    refine ⟨fun index inside => ?_, exists_broadcast_iff whole joined proper fits,
      fun v => broadcast_ok_iff whole joined proper fits,
      fun e => broadcast_error_iff whole joined proper fits⟩
    obtain ⟨vs, aligned, -⟩ := (resultAt_iff (f := f) whole joined inside).mpr rfl
    exact ⟨vs, aligned⟩

/-- A list and a row have one sum for each of their pairs. -/
theorem list_and_row_added :
    ∃ v, broadcast (fun vs => arithmetic .add (vs.getD 0 .missing) (vs.getD 1 .missing))
        [.list [.int 1, .int 2], .grid ⟨[1, 2], [.int 10, .int 20]⟩] = .ok v
      ∧ IsArray [2, 2] v ∧ v.elementAt? [1, 0] = some (.int 12) := by
  have single (i : Int64) : Value.WellFormed (.int i) := .atomic trivial
  have whole : ∀ v ∈ [Value.list [.int 1, .int 2], .grid ⟨[1, 2], [.int 10, .int 20]⟩],
      v.WellFormed := by
    intro v there
    obtain rfl | rfl := List.mem_pair.mp there
    · exact .list (by simp [single])
    · exact .grid rfl (by simp [single])
  obtain ⟨-, -, -, arrays, -⟩ := broadcast_by_index whole
    fun vs => arithmetic .add (vs.getD 0 .missing) (vs.getD 1 .missing)
  obtain ⟨-, -, ok, -⟩ := arrays [2, 2] rfl (fun none => nomatch none _ List.mem_cons_self)
    (by decide)
  refine ⟨.grid ⟨[2, 2], [.int 11, .int 12, .int 21, .int 22]⟩, rfl, ((ok _).mp rfl).1, rfl⟩

end Eval

end TablePlan
