import Mathlib.Data.List.Nodup
import TablePlan.Proofs.Indices

/-!
# What specifiers select

A selection holds columns of the schema only. Tests, ranges and complements select them in the order
of the schema, a complement selects exactly what is left, and a range selects the columns that stand
between its ends.
-/

namespace TablePlan

/-! ### Places in a schema -/

namespace Schema

variable {schema : Schema}

/-- The names stand at places of the schema that grow from each to the next. -/
def InOrder (schema : Schema) (names : List String) : Prop :=
  ∃ places : List Nat, places.Pairwise (· < ·)
    ∧ List.Forall₂ (fun name i => schema.columnNames[i]? = some name) names places

/-- A sublist is found at growing places of the whole list. -/
theorem places_of_sublist {α : Type} {part whole : List α} (h : part.Sublist whole) :
    ∃ places : List Nat, places.Pairwise (· < ·)
      ∧ List.Forall₂ (fun a i => whole[i]? = some a) part places := by
  induction h with
  | slnil => exact ⟨[], .nil, .nil⟩
  | cons a _ ih =>
      obtain ⟨places, grow, found⟩ := ih
      refine ⟨places.map (· + 1), ?_, ?_⟩
      · exact List.pairwise_map.mpr (grow.imp fun less => Nat.succ_lt_succ less)
      · exact List.forall₂_map_right_iff.mpr (found.imp fun a i there => there)
  | cons_cons a _ ih =>
      obtain ⟨places, grow, found⟩ := ih
      refine ⟨0 :: places.map (· + 1), ?_, .cons rfl ?_⟩
      · refine List.pairwise_cons.mpr ⟨fun i later => ?_, ?_⟩
        · obtain ⟨j, -, rfl⟩ := List.mem_map.mp later
          exact Nat.succ_pos j
        · exact List.pairwise_map.mpr (grow.imp fun less => Nat.succ_lt_succ less)
      · exact List.forall₂_map_right_iff.mpr (found.imp fun a i there => there)

theorem inOrder_of_sublist {names : List String} (h : names.Sublist schema.columnNames) :
    schema.InOrder names :=
  places_of_sublist h

/-- A name is found at the place where it stands, if names are distinct. -/
theorem indexOf?_iff (distinct : schema.columnNames.Nodup) {name : String} {i : Nat} :
    schema.indexOf? name = some i ↔ schema.columnNames[i]? = some name := by
  have names : schema.indexOf? name = schema.columnNames.findIdx? (· == name) := by
    rw [indexOf?, columnNames, List.findIdx?_map]
    rfl
  rw [names, List.findIdx?_eq_some_iff_getElem]
  constructor
  · rintro ⟨inside, same, -⟩
    rw [List.getElem?_eq_getElem inside, beq_iff_eq.mp same]
  · intro there
    obtain ⟨inside, same⟩ := List.getElem?_eq_some_iff.mp there
    refine ⟨inside, by simpa using same, fun j before => ?_⟩
    have within : j < schema.columnNames.length := Nat.lt_trans before inside
    have other : schema.columnNames[j] ≠ schema.columnNames[i] := fun alike =>
      absurd ((List.Nodup.getElem_inj_iff distinct).mp alike) (Nat.ne_of_lt before)
    simpa [← same] using other

theorem mem_of_indexOf? {name : String} (h : (schema.indexOf? name).isSome) :
    name ∈ schema.columnNames := by
  rw [indexOf?, List.findIdx?_isSome, List.any_eq_true] at h
  obtain ⟨column, inside, same⟩ := h
  exact List.mem_map.mpr ⟨column, inside, beq_iff_eq.mp same⟩

end Schema

/-! ### Selections -/

namespace ColumnSpec

variable {schema : Schema}

/-- A specifier of a single column means the one at a place, counted from zero. -/
def Means (schema : Schema) : ColumnSpec → Nat → Prop
  | name n, i => schema.columnNames[i]? = some n
  | position p, i => p.toInt = i + 1 ∧ i < schema.columns.length
  | _, _ => False

/-- The specifier selects by a test on every column and not one column after another. -/
def Sifts : ColumnSpec → Prop
  | predicate _ | range _ _ | typeFilter _ | all | not _ => True
  | _ => False

theorem mem_of_resolveSingle {spec : ColumnSpec} {name : String}
    (h : spec.resolveSingle schema = .ok name) : name ∈ schema.columnNames := by
  cases spec with
  | name n =>
      rw [resolveSingle] at h
      split at h
      · cases h
        exact Schema.mem_of_indexOf? ‹_›
      · cases h
  | position p =>
      rw [resolveSingle] at h
      split at h
      · cases h
      · split at h
        · cases h
          exact List.mem_map_of_mem (List.mem_of_getElem? ‹_›)
        · cases h
  | _ => cases h

/-- Columns that are meant one by one are columns of the schema. -/
theorem subset_of_mapM {items : List ColumnSpec} {names : List String}
    (h : items.mapM (resolveSingle schema) = .ok names) : names ⊆ schema.columnNames := by
  intro name inside
  obtain ⟨item, -, named⟩ := exists_of_mem_right (mapM_ok_iff.mp h) inside
  exact mem_of_resolveSingle named

/-- The end of a range stands where its specifier means. -/
theorem means_of_resolveIndex (distinct : schema.columnNames.Nodup) {spec : ColumnSpec} {i : Nat}
    (h : spec.resolveIndex schema = .ok i) : spec.Means schema i := by
  obtain ⟨name, single, h⟩ := ok_of_bind h
  have there : schema.columnNames[i]? = some name := by
    split at h
    · cases h
      exact (Schema.indexOf?_iff distinct).mp ‹_›
    · cases h
  cases spec with
  | name n =>
      rw [resolveSingle] at single
      split at single
      · cases single
        exact there
      · cases single
  | position p =>
      rw [resolveSingle] at single
      split at single
      · cases single
      · rename_i positive
        split at single
        · rename_i column found
          cases single
          obtain ⟨inside, same⟩ := List.getElem?_eq_some_iff.mp there
          have own : schema.columnNames[p.toInt.toNat - 1]? = some column.name := by
            rw [Schema.columnNames, List.getElem?_map, found]
            rfl
          obtain ⟨inside', same'⟩ := List.getElem?_eq_some_iff.mp own
          have place : i = p.toInt.toNat - 1 :=
            (List.Nodup.getElem_inj_iff distinct).mp (same.trans same'.symm)
          have least : 1 ≤ p.toInt := by
            simpa [Int64.lt_iff_toInt_lt] using positive
          refine ⟨by omega, ?_⟩
          simpa [Schema.columnNames] using inside
        · cases single
  | _ => cases single

/-- What is selected by tests keeps the order of the schema. -/
theorem sublist_of_sifts {spec : ColumnSpec} {selection : Selection} (sifts : spec.Sifts)
    (h : spec.resolve schema = .ok selection) : selection.names.Sublist schema.columnNames := by
  cases spec with
  | predicate p =>
      cases h
      exact List.filter_sublist
  | range first last =>
      obtain ⟨start, -, h⟩ := ok_of_bind h
      obtain ⟨stop, -, h⟩ := ok_of_bind h
      cases h
      exact (List.take_sublist ..).trans (List.drop_sublist ..)
  | typeFilter f =>
      cases h
      exact List.filter_sublist.map _
  | all =>
      cases h
      exact List.Sublist.refl _
  | not inner =>
      obtain ⟨excluded, -, h⟩ := ok_of_bind h
      cases h
      exact List.filter_sublist
  | _ => exact sifts.elim

theorem subset_of_resolve {spec : ColumnSpec} {selection : Selection}
    (h : spec.resolve schema = .ok selection) : selection.names ⊆ schema.columnNames := by
  cases spec with
  | name _ | position _ =>
      obtain ⟨name, single, h⟩ := ok_of_bind h
      cases h
      simpa using mem_of_resolveSingle single
  | collection items =>
      obtain ⟨names, named, h⟩ := ok_of_bind h
      cases h
      exact subset_of_mapM named
  | grid g =>
      rw [resolve] at h
      split at h
      · cases h
      · split at h
        · cases h
        · obtain ⟨names, named, h⟩ := ok_of_bind h
          cases h
          exact subset_of_mapM named
  | predicate _ | range _ _ | typeFilter _ | all | not _ =>
      exact (sublist_of_sifts (by trivial) h).subset

/-- A complement resolves if what it leaves out does. -/
theorem resolve_not {spec : ColumnSpec} {selection : Selection}
    (h : spec.resolve schema = .ok selection) :
    (not spec).resolve schema
      = .ok (.vector (schema.columnNames.filter fun n => !selection.names.contains n)) := by
  rw [resolve, h]
  rfl

theorem exists_of_resolve_not {spec : ColumnSpec} {others : Selection}
    (h : (not spec).resolve schema = .ok others) :
    ∃ selection, spec.resolve schema = .ok selection := by
  obtain ⟨selection, resolved, -⟩ := ok_of_bind h
  exact ⟨selection, resolved⟩

/-- The columns that a range takes one by one. -/
theorem getElem?_run {names : List String} (i j k : Nat) :
    ((names.drop i).take (j + 1 - i))[k]? = if i + k ≤ j then names[i + k]? else none := by
  rw [List.getElem?_take, List.getElem?_drop]
  split <;> split <;> first | rfl | omega

/-- What a specifier selects, by which places of the schema, and what its complements select. -/
theorem resolve_selects (distinct : schema.columnNames.Nodup) (spec : ColumnSpec) :
    ((∃ others, (not spec).resolve schema = .ok others)
      ↔ ∃ selection, spec.resolve schema = .ok selection)
    ∧ ∀ selection, spec.resolve schema = .ok selection →
      selection.names ⊆ schema.columnNames
      ∧ selection.names.length = Shape.size selection.shape
      ∧ (spec.Sifts → schema.InOrder selection.names)
      ∧ (∃ others, (not spec).resolve schema = .ok (.vector others) ∧ schema.InOrder others
        ∧ ∀ n, n ∈ others ↔ n ∈ schema.columnNames ∧ n ∉ selection.names)
      ∧ (∃ again, (not (not spec)).resolve schema = .ok (.vector again) ∧ schema.InOrder again
        ∧ ∀ n, n ∈ again ↔ n ∈ selection.names)
      ∧ ∀ first last, spec = range first last → ∃ i j, first.Means schema i ∧ last.Means schema j
        ∧ ∀ k, selection.names[k]? = if i + k ≤ j then schema.columnNames[i + k]? else none := by
  refine ⟨⟨fun ⟨others, h⟩ => exists_of_resolve_not h, fun ⟨selection, h⟩ => ⟨_, resolve_not h⟩⟩,
    fun selection h => ⟨subset_of_resolve h, (counted_of_resolve h).2,
      fun sifts => Schema.inOrder_of_sublist (sublist_of_sifts sifts h), ?complement, ?twice, ?run⟩⟩
  case complement =>
    refine ⟨_, resolve_not h, Schema.inOrder_of_sublist List.filter_sublist, fun n => ?_⟩
    simp
  case twice =>
    refine ⟨_, resolve_not (resolve_not h), Schema.inOrder_of_sublist List.filter_sublist,
      fun n => ?_⟩
    have listed : n ∈ selection.names → n ∈ schema.columnNames := fun inside =>
      subset_of_resolve h inside
    simp only [Selection.vector_names, List.mem_filter, Bool.not_eq_true',
      ← Bool.not_eq_true, List.contains_iff_mem]
    tauto
  case run =>
    rintro first last rfl
    obtain ⟨i, start, h⟩ := ok_of_bind h
    obtain ⟨j, stop, h⟩ := ok_of_bind h
    cases h
    exact ⟨i, j, means_of_resolveIndex distinct start, means_of_resolveIndex distinct stop,
      fun k => getElem?_run i j k⟩

/-- A range from the second column to the one named `c` in a table of four columns. -/
theorem range_selects_run :
    let table : Schema := ⟨"t", ["a", "b", "c", "d"].map ({ name := · })⟩
    let spec := range (position 2) (name "c")
    table.columnNames.Nodup ∧ spec.resolve table = .ok (.vector ["b", "c"])
      ∧ table.InOrder ["b", "c"]
      ∧ (∃ others, (not spec).resolve table = .ok (.vector others) ∧ table.InOrder others
        ∧ ∀ n, n ∈ others ↔ n ∈ table.columnNames ∧ n ∉ ["b", "c"])
      ∧ ∃ i j, (position 2).Means table i ∧ (name "c").Means table j
        ∧ ∀ k, ["b", "c"][k]? = if i + k ≤ j then table.columnNames[i + k]? else none := by
  intro table spec
  have distinct : table.columnNames.Nodup := by decide
  have resolved : spec.resolve table = .ok (.vector ["b", "c"]) := rfl
  obtain ⟨-, selects⟩ := resolve_selects distinct spec
  obtain ⟨-, -, ordered, complement, -, run⟩ := selects _ resolved
  exact ⟨distinct, resolved, ordered trivial, complement, run _ _ rfl⟩

end ColumnSpec

end TablePlan
