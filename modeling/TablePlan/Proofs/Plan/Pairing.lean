import Mathlib.Algebra.BigOperators.Ring.List
import Mathlib.Algebra.Ring.Nat
import Mathlib.Data.List.Nodup
import Mathlib.Data.Option.Basic
import TablePlan.Proofs.Grid
import TablePlan.Proofs.Plan.Inversion

/-!
# Fair pairing

Selections are paired unless their shapes clash. Where a selection is stretched, each of its positions
is the position of as many indices as any other, so none of its names is lost.
-/

namespace TablePlan

namespace Shape

theorem sum_map_ite {α : Type} (f : α → Nat) (place k : Nat) (as : List α) :
    (as.map fun a => if f a = place then k else 0).sum = k * (as.map f).count place := by
  induction as with
  | nil => rfl
  | cons a rest ih =>
      rw [List.map_cons, List.sum_cons, ih, List.map_cons, List.count_cons]
      by_cases same : f a = place <;> simp [same, Nat.mul_add, Nat.add_comm]

/-- Of the positions along the first dimension, as many are the given one as the dimension is
stretched, or none. -/
theorem count_first {n k q place : Nat} (positive : 0 < n) (sizes : n = 1 ∨ n = k) :
    ((List.range k).map fun i => (if n = 1 then 0 else i) + n * q).count place * n
      = if q = place / n then k else 0 := by
  by_cases one : n = 1
  · subst one
    simp [List.map_const', List.count_replicate]
  · obtain rfl := sizes.resolve_left one
    simp only [if_neg one]
    have distinct : ((List.range n).map fun i => i + n * q).Nodup :=
      List.nodup_range.map fun i j same => Nat.add_right_cancel same
    split
    · rename_i same
      have inside : place ∈ (List.range n).map fun i => i + n * q := by
        refine List.mem_map.mpr ⟨place % n, List.mem_range.mpr (Nat.mod_lt _ positive), ?_⟩
        rw [same, Nat.mod_add_div]
      rw [List.count_eq_one_of_mem distinct inside, Nat.one_mul]
    · rename_i other
      have outside : place ∉ (List.range n).map fun i => i + n * q := by
        rintro inside
        obtain ⟨i, below, rfl⟩ := List.mem_map.mp inside
        refine other ?_
        rw [Nat.add_mul_div_left _ _ positive, Nat.div_eq_of_lt (List.mem_range.mp below), Nat.zero_add]
      rw [List.count_eq_zero_of_not_mem outside, Nat.zero_mul]

/-- Where a shape is stretched, its positions are all used equally often. -/
theorem count_operandPosition {shape common : Shape} (stretches : Stretches shape common)
    {place : Nat} (below : place < size shape) :
    ((indices common).map (operandPosition shape)).count place * size shape = size common := by
  induction shape generalizing common place with
  | nil =>
      obtain rfl : place = 0 := Nat.lt_one_iff.mp below
      simp [operandPosition, List.map_const', length_indices]
  | cons n shape ih =>
      cases common with
      | nil => exact stretches.elim
      | cons k common =>
          obtain ⟨sizes, stretches⟩ := stretches
          rw [size_cons] at below
          have positive : 0 < n := Nat.pos_of_mul_pos_right (Nat.zero_lt_of_lt below)
          have later := ih stretches (Nat.div_lt_of_lt_mul below)
          have parts : ((indices (k :: common)).map (operandPosition (n :: shape))).count place * n
              = k * ((indices common).map (operandPosition shape)).count (place / n) := by
            rw [indices, List.map_flatMap, List.count_flatMap, ← sum_map_ite,
              ← List.sum_map_mul_right]
            refine congrArg List.sum (List.map_congr_left fun rest _ => ?_)
            rw [← count_first positive sizes, Function.comp_apply, List.map_map]
            rfl
          rw [size_cons, size_cons, ← Nat.mul_assoc, parts, Nat.mul_assoc, later]

end Shape

/-! ### Uses of the positions -/

namespace Selection

/-- As many names as the shape has elements. -/
def Whole (s : Selection) : Prop :=
  s.names.length = Shape.size s.shape

/-- The positions in a selection of the indices of a shape. -/
def places (s : Selection) (shape : Shape) : List Nat :=
  (Shape.indices shape).map (Shape.operandPosition s.shape)

/-- The names are those of a selection at the indices of a shape, and unless the shape is empty every
position in the selection has its equal share of them. -/
structure Spread (s : Selection) (shape : Shape) (names : List String) : Prop where
  count : names.length = Shape.size shape
  named : List.Forall₂ (fun place name => s.names[place]? = some name) (s.places shape) names
  even : 0 < Shape.size shape → ∀ place < s.names.length,
    (s.places shape).count place = Shape.size shape / s.names.length
      ∧ 0 < (s.places shape).count place

theorem Whole.spread {s : Selection} (whole : s.Whole) {shape : Shape}
    (stretches : Shape.Stretches s.shape shape) {names : List String}
    (named : List.Forall₂ (fun place name => s.names[place]? = some name) (s.places shape) names) :
    s.Spread shape names where
  count := by rw [← named.length_eq, places, List.length_map, Shape.length_indices]
  named := named
  even positive place below := by
    rw [whole] at below ⊢
    have share := Shape.count_operandPosition stretches below
    refine ⟨(Nat.div_eq_of_eq_mul_left (Nat.zero_lt_of_lt below) share.symm).symm, ?_⟩
    exact Nat.pos_of_mul_pos_right (share ▸ positive)

/-- At an index of a shape that it stretches to, a whole selection has a name. -/
theorem Whole.exists_name {s : Selection} (whole : s.Whole) {shape : Shape}
    (stretches : Shape.Stretches s.shape shape) {index : List Nat}
    (inside : index ∈ Shape.indices shape) : ∃ name, Pairing.nameAt s index = .ok name := by
  have below := Shape.operandPosition_lt stretches inside
  rw [← whole] at below
  exact ⟨_, by rw [Pairing.nameAt, List.getElem?_eq_getElem below]⟩

end Selection

namespace Pairing

theorem getElem?_of_nameAt {s : Selection} {index : List Nat} {name : String}
    (h : nameAt s index = .ok name) :
    s.names[Shape.operandPosition s.shape index]? = some name := by
  unfold nameAt at h
  split at h <;> cases h
  assumption

/-- Two sources clash, or their common shape clashes with the sink as it is paired with them. -/
def Clashing (sources : List Selection) (sink : Option Selection) : Prop :=
  (∃ a ∈ sources, ∃ b ∈ sources, Shape.Clash a.shape b.shape)
  ∨ ∃ common, Shape.IsLeast (sources.map Selection.shape) common
    ∧ ∃ s ∈ sink, Shape.Clash common (flattened common s).shape

/-- Every element has one name of each source and, if there are sinks, one of these. The names of a
selection go round evenly. -/
structure Even (sources : List Selection) (sink : Option Selection) (p : Pairing) : Prop where
  shape : Shape.IsLeast ((sources ++ sink.toList).map Selection.shape) p.shape
  elements : p.sources.length = Shape.size p.shape
  oneEach : ∀ names ∈ p.sources, names.length = sources.length
  sources : ∀ (j : Nat) (s : Selection), sources[j]? = some s →
    ∃ names, p.sources.map (·[j]?) = names.map some ∧ s.Spread p.shape names
  sinks : Option.Rel (fun s names => s.Spread p.shape names) sink p.sinks

/-- The names at all indices of a shape. -/
def filled (sources : List Selection) (sink : Option Selection) (shape : Shape) :
    Except ArgumentError Pairing := do
  let indices ← indicesOf shape
  let names ← indices.mapM fun index => sources.mapM fun s => nameAt s index
  let sinks ← sink.mapM fun s => indices.mapM (nameAt s)
  return ⟨shape, names, sinks⟩

theorem commonShape_eq (shapes : List Shape) : commonShape shapes
    = (Shape.common? shapes).elim (.error (.broadcastShapeMismatch shapes)) .ok := by
  unfold commonShape
  cases Shape.common? shapes <;> rfl

variable {sources : List Selection} {sink : Option Selection}

/-- Without a sink the shape is the common one of the sources, which is that of itself alone. -/
theorem ofSelections_eq : ofSelections sources sink = (do
    let common ← commonShape (sources.map Selection.shape)
    let sink := sink.map (flattened common)
    let shape ← commonShape (common :: sink.toList.map Selection.shape)
    filled sources sink shape) := by
  refine bind_congr fun common => ?_
  cases sink with
  | none =>
      have own : commonShape [common] = .ok common := by
        rw [commonShape_eq, Shape.common?_singleton]
        rfl
      change (_ : Except ArgumentError Pairing) = commonShape [common] >>= filled sources none
      rw [own]
      rfl
  | some s => rfl

theorem ofSelections_of_clashing (h : Clashing sources sink) :
    ∃ shapes, ofSelections sources sink = .error (.broadcastShapeMismatch shapes) := by
  rw [ofSelections_eq]
  obtain ⟨a, inside, b, inside', clash⟩ | ⟨common, least, s, is, clash⟩ := h
  · have none := Shape.common?_eq_none_iff.mpr
      ⟨_, List.mem_map_of_mem inside, _, List.mem_map_of_mem inside', clash⟩
    exact ⟨_, by rw [commonShape_eq, none]; rfl⟩
  · cases is
    have none := Shape.common?_pair_eq_none_iff.mpr clash
    refine ⟨[common, (flattened common s).shape], ?_⟩
    rw [commonShape_eq, Shape.common?_iff.mpr least]
    change (commonShape [common, (flattened common s).shape] >>= _) = _
    rw [commonShape_eq, none]
    rfl

theorem exists_isShape (h : ¬ Clashing sources sink) : ∃ shape, IsShape sources sink shape := by
  obtain ⟨common, joined⟩ : ∃ common, Shape.common? (sources.map Selection.shape) = some common := by
    refine Option.ne_none_iff_exists'.mp fun none => h (.inl ?_)
    obtain ⟨a, inside, b, inside', clash⟩ := Shape.common?_eq_none_iff.mp none
    obtain ⟨s, listed, rfl⟩ := List.mem_map.mp inside
    obtain ⟨t, listed', rfl⟩ := List.mem_map.mp inside'
    exact ⟨s, listed, t, listed', clash⟩
  cases sink with
  | none => exact ⟨common, common, joined, Shape.common?_singleton common⟩
  | some s =>
      obtain ⟨shape, joined'⟩ : ∃ shape, Shape.common? [common, (flattened common s).shape]
          = some shape := by
        refine Option.ne_none_iff_exists'.mp fun none => h (.inr ?_)
        have clash := Shape.common?_pair_eq_none_iff.mp none
        exact ⟨common, Shape.common?_iff.mp joined, s, rfl, clash⟩
      exact ⟨shape, common, joined, joined'⟩

/-- Whatever stretches to the common shape of the sources and to the sink does so to the shape of the
pairing. -/
theorem isLeast_of_joined {common shape : Shape}
    (least : Shape.IsLeast (sources.map Selection.shape) common)
    (joined : Shape.IsLeast (common :: sink.toList.map Selection.shape) shape) :
    Shape.IsLeast ((sources ++ sink.toList).map Selection.shape) shape := by
  rw [List.map_append]
  refine ⟨fun a inside => ?_, fun t bound => joined.2 t fun a inside => ?_⟩
  · obtain source | sink := List.mem_append.mp inside
    · exact Shape.stretches_trans (least.1 a source) (joined.1 common List.mem_cons_self)
    · exact joined.1 a (List.mem_cons_of_mem _ sink)
  · obtain rfl | sink := List.mem_cons.mp inside
    · exact least.2 t fun a source => bound a (List.mem_append_left _ source)
    · exact bound a (List.mem_append_right _ sink)

/-- The entries at one place of rows that give a name to each of several sources. -/
theorem column_of_rows {R : List Nat → Selection → String → Prop} {indices : List (List Nat)}
    {rows : List (List String)} (each : List.Forall₂ (fun index row => List.Forall₂ (R index) sources row)
      indices rows) {j : Nat} {s : Selection} (there : sources[j]? = some s) :
    ∃ names, rows.map (·[j]?) = names.map some ∧ List.Forall₂ (R · s) indices names := by
  induction each with
  | nil => exact ⟨[], rfl, .nil⟩
  | cons first _ ih =>
      obtain ⟨names, entries, related⟩ := ih
      obtain ⟨name, entry, own⟩ := getElem?_of_forall₂ first.flip there
      exact ⟨name :: names, by rw [List.map_cons, entry, entries, List.map_cons], .cons own related⟩

section

variable {shape : Shape}

theorem spread_of_nameAt {s : Selection} (whole : s.Whole) (stretches : Shape.Stretches s.shape shape)
    {names : List String}
    (named : List.Forall₂ (fun index name => nameAt s index = .ok name) (Shape.indices shape) names) :
    s.Spread shape names :=
  whole.spread stretches <| List.forall₂_map_left_iff.mpr <| named.imp fun _ _ => getElem?_of_nameAt

theorem filled_of_not_fits (uncounted : ¬ shape.Fits) :
    filled sources sink shape = .error (.stopped (.sizes shape)) := by
  rw [filled, indicesOf_of_not_fits uncounted]
  rfl

/-- Whole selections that stretch to a shape have names at all of its indices, and these go round
evenly. -/
theorem filled_even (whole : ∀ s ∈ sources, s.Whole) (wholeSink : ∀ s ∈ sink, s.Whole)
    (least : Shape.IsLeast ((sources ++ sink.toList).map Selection.shape) shape)
    (fits : shape.Fits) :
    ∃ p, filled sources sink shape = .ok p ∧ p.shape = shape ∧ p.Even sources sink := by
  have stretches {s : Selection} (listed : s ∈ sources ++ sink.toList) :
      Shape.Stretches s.shape shape := least.1 _ (List.mem_map_of_mem listed)
  obtain ⟨rows, each⟩ : ∃ rows, (Shape.indices shape).mapM
      (fun index => sources.mapM fun s => nameAt s index) = .ok rows := by
    refine exists_mapM_ok fun index inside => exists_mapM_ok fun s listed => ?_
    exact (whole s listed).exists_name (stretches (List.mem_append_left _ listed)) inside
  obtain ⟨sinks, named, spread⟩ : ∃ sinks,
      sink.mapM (fun s => (Shape.indices shape).mapM (nameAt s)) = .ok sinks
        ∧ Option.Rel (fun s names => s.Spread shape names) sink sinks := by
    cases sink with
    | none => exact ⟨none, rfl, .none⟩
    | some s =>
        have within : Shape.Stretches s.shape shape := stretches (by simp)
        obtain ⟨names, named⟩ := exists_mapM_ok fun _ inside =>
          (wholeSink s rfl).exists_name within inside
        refine ⟨some names, by rw [Option.mapM_some, named]; rfl, .some ?_⟩
        exact spread_of_nameAt (wholeSink s rfl) within (mapM_ok_iff.mp named)
  have forms := (mapM_ok_iff.mp each).imp fun index row => mapM_ok_iff.mp
  have computed : filled sources sink shape = .ok ⟨shape, rows, sinks⟩ := by
    simp only [filled, indicesOf_of_fits fits, each, named, bind, Except.bind]
    rfl
  refine ⟨_, computed, rfl, least, ?_, fun names inside => ?_, fun j s there => ?_, spread⟩
  · exact forms.length_eq.symm.trans (Shape.length_indices shape)
  · obtain ⟨index, -, row⟩ := exists_of_mem_right forms inside
    exact row.length_eq.symm
  · have listed := List.mem_of_getElem? there
    obtain ⟨names, entries, named⟩ := column_of_rows forms there
    have within := stretches (List.mem_append_left _ listed)
    exact ⟨names, entries, spread_of_nameAt (whole s listed) within named⟩

end

theorem flattened_whole {common : Shape} {s : Selection} (whole : s.Whole) :
    (flattened common s).Whole := by
  unfold flattened
  split
  · exact (Nat.mul_one _).symm
  · exact whole

/-- Selections with as many names as elements are paired unless shapes clash, which is then what is
reported, or the elements of the common shape are too many to count. What they are paired to loses
none of their names and prefers none. -/
theorem pairs_evenly (sources : List Selection) (sink : Option Selection)
    (whole : ∀ s ∈ sources, s.Whole) (wholeSink : ∀ s ∈ sink, s.Whole) :
    (Clashing sources sink →
        ∃ shapes, ofSelections sources sink = .error (.broadcastShapeMismatch shapes))
    ∧ (¬ Clashing sources sink → ∃ common shape,
        Shape.IsLeast (sources.map Selection.shape) common
        ∧ Shape.IsLeast ((sources ++ (sink.map (flattened common)).toList).map Selection.shape) shape
        ∧ (¬ shape.Fits → ofSelections sources sink = .error (.stopped (.sizes shape)))
        ∧ (shape.Fits → ∃ p, ofSelections sources sink = .ok p ∧ p.shape = shape
            ∧ p.Even sources (sink.map (flattened common)))) := by
  refine ⟨ofSelections_of_clashing, fun clashing => ?_⟩
  obtain ⟨shape, common, least, joined⟩ := exists_isShape clashing
  have pairs : ofSelections sources sink
      = filled sources (sink.map (flattened common)) shape := by
    rw [ofSelections_eq, commonShape_eq, least]
    change commonShape (common :: (sink.map (flattened common)).toList.map Selection.shape) >>= _ = _
    rw [commonShape_eq, joined]
    rfl
  have wholeFlat : ∀ s ∈ sink.map (flattened common), s.Whole := by
    intro s inside
    obtain ⟨own, there, rfl⟩ := Option.mem_map.mp inside
    exact flattened_whole (wholeSink own there)
  rw [Shape.common?_iff] at least joined
  have paired := isLeast_of_joined least joined
  rw [pairs]
  exact ⟨common, shape, least, paired, filled_of_not_fits, filled_even whole wholeFlat paired⟩

/-- A list of four names meets a single one and the four sinks of a grid, which go as a list too. -/
theorem grid_sink_pairs_evenly :
    let sources : List Selection := [.vector ["a", "b", "c", "d"], .scalar "k"]
    let sink : Selection := ⟨["w", "x", "y", "z"], [2, 2]⟩
    ¬ Clashing sources (some sink)
      ∧ ∃ common, Shape.IsLeast (sources.map Selection.shape) common
        ∧ Even sources (some (flattened common sink))
            ⟨[4], [["a", "k"], ["b", "k"], ["c", "k"], ["d", "k"]], some ["w", "x", "y", "z"]⟩ := by
  intro sources sink
  have result : ofSelections sources (some sink)
      = .ok ⟨[4], [["a", "k"], ["b", "k"], ["c", "k"], ["d", "k"]], some ["w", "x", "y", "z"]⟩ := rfl
  obtain ⟨clashes, pairs⟩ := pairs_evenly sources (some sink) (by simp [sources, Selection.Whole])
    (by simp [sink, Selection.Whole])
  have apart : ¬ Clashing sources (some sink) := by
    intro clashing
    obtain ⟨shapes, fails⟩ := clashes clashing
    cases result.symm.trans fails
  obtain ⟨common, shape, least, -, stops, fits⟩ := pairs apart
  by_cases counted : shape.Fits
  · obtain ⟨p, paired, -, even⟩ := fits counted
    cases result.symm.trans paired
    exact ⟨apart, common, least, even⟩
  · cases result.symm.trans (stops counted)

end Pairing

end TablePlan
