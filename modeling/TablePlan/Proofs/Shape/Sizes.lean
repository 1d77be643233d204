import Mathlib.Logic.Basic
import TablePlan.Proofs.Shape

/-!
# The sizes of the common shape

The common shape has as many dimensions as any of the shapes, and at each of them the size other
than one that occurs there, or one if none does. So it can be found in stages: shapes are replaced
by their common shape without a change to what they have in common with others.
-/

namespace TablePlan.Shape

/-- The greatest number of dimensions of several shapes. -/
def rank (shapes : List Shape) : Nat :=
  (shapes.map List.length).foldr max 0

/-- A shape has as many dimensions as any of several ones. At each of them it has the size other
than one that occurs there, or one if none does. -/
structure HasSizes (shapes : List Shape) (common : Shape) : Prop where
  length : common.length = rank shapes
  proper : ∀ a ∈ shapes, ∀ d n : Nat, a[d]? = some n → n ≠ 1 → common[d]? = some n
  neutral : ∀ d < common.length, (∀ a ∈ shapes, ∀ n : Nat, a[d]? = some n → n = 1) → common[d]? = some 1

/-! ### Numbers of dimensions -/

theorem rank_le_iff {shapes : List Shape} {k : Nat} :
    rank shapes ≤ k ↔ ∀ a ∈ shapes, a.length ≤ k := by
  induction shapes with
  | nil => simp [rank]
  | cons a rest ih =>
      rw [List.forall_mem_cons, ← ih]
      exact Nat.max_le

theorem Stretches.length_le {a b : Shape} (h : Stretches a b) : a.length ≤ b.length := by
  induction a generalizing b with
  | nil => exact Nat.zero_le _
  | cons m shape ih =>
      cases b with
      | nil => exact h.elim
      | cons n other => exact Nat.succ_le_succ (ih h.2)

/-! ### Sizes -/

theorem getElem?_of_foldlM {shapes : List Shape} {start common : Shape}
    (h : shapes.foldlM join? start = some common) {d k : Nat} (there : common[d]? = some k) :
    ∃ a ∈ start :: shapes, a[d]? = some k := by
  induction shapes generalizing start with
  | nil =>
      cases h
      exact ⟨_, List.mem_cons_self, there⟩
  | cons b rest ih =>
      rw [List.foldlM_cons, Option.bind_eq_bind, Option.bind_eq_some_iff] at h
      obtain ⟨joined, first, h⟩ := h
      obtain ⟨a, inside, own⟩ := ih h
      exact exists_size_of_join? first inside own

/-- Every size of the common shape is one of a shape. -/
theorem getElem?_of_common? {shapes : List Shape} {common : Shape}
    (h : common? shapes = some common) {d k : Nat} (there : common[d]? = some k) :
    ∃ a ∈ shapes, a[d]? = some k := by
  obtain ⟨a, inside, own⟩ := getElem?_of_foldlM h there
  refine ⟨a, List.mem_of_ne_of_mem ?_ inside, own⟩
  rintro rfl
  cases own

theorem hasSizes_of_common? {shapes : List Shape} {common : Shape}
    (h : common? shapes = some common) : HasSizes shapes common := by
  have stretches := (common?_iff.mp h).1
  refine ⟨Nat.le_antisymm ?_ (rank_le_iff.mpr fun a inside => (stretches a inside).length_le),
    fun a inside d n there fixed => ?_, fun d below neutral => ?_⟩
  · -- The last dimension of the common shape is a dimension of one of the shapes.
    cases last : common.length with
    | zero => exact Nat.zero_le _
    | succ d =>
        have below : d < common.length := by omega
        obtain ⟨a, inside, own⟩ := getElem?_of_common? h (List.getElem?_eq_getElem below)
        have reached : d < a.length := (List.getElem?_eq_some_iff.mp own).1
        exact Nat.le_trans reached (rank_le_iff.mp (Nat.le_refl _) a inside)
  · obtain ⟨k, found, sizes⟩ := (stretches a inside).getElem? there
    rw [found, sizes.resolve_left fixed]
  · obtain ⟨a, inside, own⟩ := getElem?_of_common? h (List.getElem?_eq_getElem below)
    rw [List.getElem?_eq_getElem below, neutral a inside _ own]

/-- Shapes of which one has the sizes of all do not clash. -/
theorem HasSizes.not_clash {shapes : List Shape} {common a b : Shape} (h : HasSizes shapes common)
    (left : a ∈ shapes) (right : b ∈ shapes) : ¬ Clash a b := by
  rintro ⟨d, m, n, first, second, different, fixed, fixed'⟩
  have same := (h.proper a left d m first fixed).symm.trans (h.proper b right d n second fixed')
  exact different (Option.some.inj same)

theorem HasSizes.unique {shapes : List Shape} {a b : Shape} (ha : HasSizes shapes a)
    (hb : HasSizes shapes b) : a = b := by
  have lengths : a.length = b.length := ha.length.trans hb.length.symm
  refine List.ext_getElem? fun d => ?_
  by_cases below : d < a.length
  · by_cases neutral : ∀ x ∈ shapes, ∀ n : Nat, x[d]? = some n → n = 1
    · rw [ha.neutral d below neutral, hb.neutral d (lengths ▸ below) neutral]
    · simp only [not_forall] at neutral
      obtain ⟨x, inside, n, there, fixed⟩ := neutral
      rw [ha.proper x inside d n there fixed, hb.proper x inside d n there fixed]
  · have above : a.length ≤ d := Nat.le_of_not_lt below
    rw [List.getElem?_eq_none above, List.getElem?_eq_none (lengths ▸ above)]

theorem common?_eq_some_iff {shapes : List Shape} {common : Shape} :
    common? shapes = some common ↔ HasSizes shapes common := by
  refine ⟨hasSizes_of_common?, fun sizes => ?_⟩
  cases joined : common? shapes with
  | none =>
      obtain ⟨a, inside, b, inside', clash⟩ := common?_eq_none_iff.mp joined
      exact absurd clash (sizes.not_clash inside inside')
  | some c => rw [(hasSizes_of_common? joined).unique sizes]

/-! ### Stages -/

/-- The common shape of some shapes stands for them in the common shape of all. -/
theorem common?_append (first rest : List Shape) :
    common? (first ++ rest) = (common? first).bind fun joined => common? (joined :: rest) := by
  simp only [common?, List.foldlM_append, List.foldlM_cons, join?_nil_left, Option.bind_eq_bind,
    Option.bind_some]

/-- Several shapes have no common shape exactly if two of them have different sizes other than one
at the same dimension. Otherwise it has the greatest number of dimensions, and at each of them the
size other than one that occurs there, or one. It does not depend on the order or the repetition of
the shapes, and joining some of them first makes no difference. -/
theorem common?_outcome (shapes : List Shape) :
    (common? shapes = none ↔ ∃ d m n : Nat, (∃ a ∈ shapes, a[d]? = some m)
      ∧ (∃ b ∈ shapes, b[d]? = some n) ∧ m ≠ n ∧ m ≠ 1 ∧ n ≠ 1)
    ∧ (∀ common, common? shapes = some common ↔ HasSizes shapes common)
    ∧ (∀ others : List Shape, (∀ a, a ∈ others ↔ a ∈ shapes) → common? others = common? shapes)
    ∧ ∀ first rest : List Shape, (∀ a, a ∈ shapes ↔ a ∈ first ∨ a ∈ rest) →
      common? shapes = (common? first).bind fun joined => common? (joined :: rest) := by
  refine ⟨?_, fun common => common?_eq_some_iff, fun others same => common?_congr same,
    fun first rest parts => ?_⟩
  · rw [common?_eq_none_iff]
    constructor
    · rintro ⟨a, left, b, right, d, m, n, first, second, apart⟩
      exact ⟨d, m, n, ⟨a, left, first⟩, ⟨b, right, second⟩, apart⟩
    · rintro ⟨d, m, n, ⟨a, left, first⟩, ⟨b, right, second⟩, apart⟩
      exact ⟨a, left, b, right, d, m, n, first, second, apart⟩
  · rw [← common?_append]
    exact common?_congr fun a => by rw [parts a, List.mem_append]

/-- A column and a row stretch to a matrix, in any order and after the column has been joined with a
scalar; a dimension of size zero stretches one of size one. -/
theorem column_and_row_join :
    common? [[1, 3], [2], [], [2]] = some [2, 3]
    ∧ common? [[1, 3], [2], [], [2]] = (common? [[2], []]).bind (fun c => common? [c, [1, 3]])
    ∧ common? [[0], [1, 3]] = some [0, 3] ∧ common? [[2], [3, 1]] = none := by
  obtain ⟨-, -, order, stages⟩ := common?_outcome [[1, 3], [2], [], [2]]
  have zero : HasSizes [[0], [1, 3]] [0, 3] := hasSizes_of_common? rfl
  refine ⟨?_, stages [[2], []] [[1, 3]] fun a => ?_, ?_, ?_⟩
  · exact (order [[], [2], [1, 3]] fun a => by simp; grind).symm.trans rfl
  · simp
    grind
  · exact ((common?_outcome _).2.1 _).mpr zero
  · exact (common?_outcome _).1.mpr ⟨0, 2, 3, by simp, by simp, by decide⟩

end TablePlan.Shape
