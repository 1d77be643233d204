import TablePlan.Plan.Pairing
import TablePlan.Proofs.Effects
import TablePlan.Proofs.Shape
import TablePlan.Proofs.Shape.Counting

/-!
# Elements in the order of their indices

The indices of a shape are enumerated in the order of the elements: the index that comes `k`-th has
position `k`. So whatever is done at every index of the shape of some elements is done to one
element after another.
-/

namespace TablePlan

namespace Shape

/-- The indices of a shape have the positions of its elements, in order. -/
theorem map_operandPosition_indices (shape : Shape) :
    (indices shape).map (operandPosition shape) = List.range (size shape) := by
  induction shape with
  | nil => rfl
  | cons n shape ih =>
      have first (rest : List Nat) : ((List.range n).map (· :: rest)).map (operandPosition (n :: shape))
          = (List.range n).map fun i => i + n * operandPosition shape rest := by
        rw [List.map_map]
        refine List.map_congr_left fun i inside => ?_
        have below := List.mem_range.mp inside
        by_cases one : n = 1
        · simp [operandPosition, one, show i = 0 by omega]
        · simp [operandPosition, one]
      rw [indices, List.map_flatMap, size_cons, range_mul, ← ih, List.flatMap_map]
      exact List.flatMap_congr fun rest _ => first rest

/-- At the indices of a shape stand the elements of a collection of that shape. -/
theorem forall₂_indices {α : Type} {shape : Shape} {items : List α}
    (count : items.length = size shape) :
    List.Forall₂ (fun index a => items[operandPosition shape index]? = some a) (indices shape) items := by
  have places : List.Forall₂ (fun i a => items[i]? = some a)
      ((indices shape).map (operandPosition shape)) items := by
    rw [map_operandPosition_indices, ← count, List.forall₂_iff_get]
    refine ⟨by simp, fun i lower upper => ?_⟩
    simp
  exact List.forall₂_map_left_iff.mp places

theorem join?_self (shape : Shape) : join? shape shape = some shape := by
  induction shape with
  | nil => rfl
  | cons n shape ih => simp [join?, joinSize?, ih]

@[simp] theorem common?_singleton (shape : Shape) : common? [shape] = some shape := by
  simp [common?]

@[simp] theorem common?_pair_self (shape : Shape) : common? [shape, shape] = some shape := by
  simp [common?, join?_self]

end Shape

/-! ### Selections -/

namespace ColumnSpec

/-- A selection has a shape that can be counted, and as many names as that has elements. -/
theorem counted_of_resolve {schema : Schema} {spec : ColumnSpec} {selection : Selection}
    (h : spec.resolve schema = .ok selection) :
    selection.shape.Fits ∧ selection.names.length = Shape.size selection.shape := by
  have vector (names : List String) : (Selection.vector names).shape.Fits
      ∧ (Selection.vector names).names.length = Shape.size (Selection.vector names).shape :=
    ⟨Shape.fits_vector names.length, by simp⟩
  cases spec with
  | collection items =>
      obtain ⟨names, -, h⟩ := ok_of_bind h
      cases h
      exact vector names
  | grid g =>
      rw [resolve] at h
      split at h
      · cases h
      · rename_i count counted
        obtain ⟨fits, rfl⟩ := Shape.count?_eq_some_iff.mp counted
        split at h
        · cases h
        · rename_i whole
          obtain ⟨names, named, h⟩ := ok_of_bind h
          cases h
          rw [← (mapM_ok_iff.mp named).length_eq]
          exact ⟨fits, (not_not.mp whole).symm⟩
  | range first last =>
      obtain ⟨start, -, h⟩ := ok_of_bind h
      obtain ⟨stop, -, h⟩ := ok_of_bind h
      cases h
      exact vector _
  | not inner =>
      obtain ⟨excluded, -, h⟩ := ok_of_bind h
      cases h
      exact vector _
  | name _ | position _ =>
      obtain ⟨name, -, h⟩ := ok_of_bind h
      cases h
      exact ⟨Shape.fits_scalar, rfl⟩
  | predicate _ | typeFilter _ | all =>
      cases h
      exact vector _

end ColumnSpec

namespace Pairing

theorem indicesOf_of_fits {shape : Shape} (fits : shape.Fits) :
    indicesOf shape = .ok (Shape.indices shape) := by
  rw [indicesOf, Shape.enumerate?_of_fits fits]

theorem indicesOf_of_not_fits {shape : Shape} (uncounted : ¬ shape.Fits) :
    indicesOf shape = .error (.stopped (.sizes shape)) := by
  rw [indicesOf, Shape.enumerate?_eq_none_iff.mpr uncounted]

theorem fits_of_indicesOf {shape : Shape} {indices : List (List Nat)}
    (h : indicesOf shape = .ok indices) : shape.Fits ∧ Shape.indices shape = indices := by
  unfold indicesOf at h
  split at h <;> cases h
  exact Shape.enumerate?_eq_some_iff.mp ‹_›

theorem mapM_nameAt {s : Selection} (count : s.names.length = Shape.size s.shape) :
    (Shape.indices s.shape).mapM (nameAt s) = .ok s.names := by
  refine mapM_ok_iff.mpr ((Shape.forall₂_indices count).imp fun index name there => ?_)
  rw [nameAt, there]

/-- A selection is paired with a sink of its own shape name by name. -/
theorem ofSelections_same {source sink : Selection} (same : sink.shape = source.shape)
    (fits : source.shape.Fits)
    (count : source.names.length = Shape.size source.shape)
    (count' : sink.names.length = Shape.size sink.shape) :
    ofSelections [source] (some sink)
      = .ok ⟨source.shape, source.names.map ([·]), some sink.names⟩ := by
  have kept : flattened source.shape sink = sink := by
    rw [flattened, if_neg fun h => h.2 same]
  have sources : (Shape.indices source.shape).mapM
      (fun index => [source].mapM fun s => nameAt s index) = .ok (source.names.map ([·])) := by
    refine mapM_ok_iff.mpr (List.forall₂_map_right_iff.mpr ?_)
    refine (mapM_ok_iff.mp (mapM_nameAt count)).imp fun index name there => ?_
    rw [List.mapM_cons, there]
    rfl
  have sinks := mapM_nameAt count'
  rw [same] at sinks
  simp only [ofSelections, commonShape, List.map_cons, List.map_nil, Shape.common?_singleton,
    Option.map_some, kept, same, Shape.common?_pair_self, indicesOf_of_fits fits, bind, Except.bind,
    sources,
    Option.mapM_some, sinks]
  rfl

end Pairing

end TablePlan
