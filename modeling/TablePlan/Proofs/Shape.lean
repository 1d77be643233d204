import TablePlan.Shape

/-!
# The common shape

The common shape of several shapes is the least one that all of them stretch to, so neither their
order nor their repetition matters. There is one unless two of the shapes clash.
-/

namespace TablePlan.Shape

/-- Every dimension has size one or the size of the same dimension of the other shape. -/
def Stretches : Shape → Shape → Prop
  | [], _ => True
  | _ :: _, [] => False
  | m :: shape, n :: other => (m = 1 ∨ m = n) ∧ Stretches shape other

theorem stretches_refl (a : Shape) : Stretches a a := by
  induction a with
  | nil => trivial
  | cons n shape ih => exact ⟨Or.inr rfl, ih⟩

theorem stretches_trans {a b c : Shape} (first : Stretches a b) (second : Stretches b c) :
    Stretches a c := by
  induction a generalizing b c with
  | nil => trivial
  | cons m shape ih =>
      cases b with
      | nil => exact first.elim
      | cons n other =>
          cases c with
          | nil => exact second.elim
          | cons k last =>
              refine ⟨?_, ih first.2 second.2⟩
              obtain rfl | rfl := first.1
              · exact Or.inl rfl
              · exact second.1

theorem stretches_antisymm {a b : Shape} (first : Stretches a b) (second : Stretches b a) :
    a = b := by
  induction a generalizing b with
  | nil =>
      cases b with
      | nil => rfl
      | cons n other => exact second.elim
  | cons m shape ih =>
      cases b with
      | nil => exact first.elim
      | cons n other =>
          have sizes : m = n := by
            have := first.1
            have := second.1
            omega
          rw [sizes, ih first.2 second.2]

/-- A shape is the least one that all of several shapes stretch to. -/
def IsLeast (shapes : List Shape) (least : Shape) : Prop :=
  (∀ a ∈ shapes, Stretches a least) ∧ ∀ t, (∀ a ∈ shapes, Stretches a t) → Stretches least t

theorem IsLeast.unique {shapes : List Shape} {a b : Shape} (ha : IsLeast shapes a)
    (hb : IsLeast shapes b) : a = b :=
  stretches_antisymm (ha.2 b hb.1) (hb.2 a ha.1)

theorem joinSize?_eq_some {m n k : Nat} (h : joinSize? m n = some k) :
    (m = 1 ∨ m = k) ∧ (n = 1 ∨ n = k) ∧ (k = m ∨ k = n) := by
  unfold joinSize? at h
  split at h
  · cases h
    omega
  · split at h <;> cases h
    omega

/-- A join is stretched to by both shapes, and stretches to whatever both stretch to. -/
theorem join?_isLeast {a b c : Shape} (h : join? a b = some c) :
    Stretches a c ∧ Stretches b c ∧ ∀ t, Stretches a t → Stretches b t → Stretches c t := by
  induction a generalizing b c with
  | nil =>
      rw [join?_nil_left] at h
      cases h
      exact ⟨trivial, stretches_refl b, fun t _ right => right⟩
  | cons m shape ih =>
      cases b with
      | nil =>
          rw [join?_nil_right] at h
          cases h
          exact ⟨stretches_refl _, trivial, fun t left _ => left⟩
      | cons n other =>
          obtain ⟨k, sizes, h⟩ := Option.bind_eq_some_iff.mp h
          obtain ⟨rest, joined, h⟩ := Option.bind_eq_some_iff.mp h
          cases h
          obtain ⟨left, right, from_⟩ := joinSize?_eq_some sizes
          obtain ⟨lower, upper, least⟩ := ih joined
          refine ⟨⟨left, lower⟩, ⟨right, upper⟩, fun t ht hu => ?_⟩
          cases t with
          | nil => exact ht.elim
          | cons l t =>
              refine ⟨?_, least t ht.2 hu.2⟩
              obtain rfl | rfl := from_
              · exact ht.1
              · exact hu.1

/-- Shapes that stretch to one shape can be joined. -/
theorem exists_join? {a b t : Shape} (left : Stretches a t) (right : Stretches b t) :
    ∃ c, join? a b = some c := by
  induction a generalizing b t with
  | nil => exact ⟨b, join?_nil_left b⟩
  | cons m shape ih =>
      cases b with
      | nil => exact ⟨_, join?_nil_right _⟩
      | cons n other =>
          cases t with
          | nil => exact left.elim
          | cons l t =>
              obtain ⟨c, joined⟩ := ih left.2 right.2
              have sizes : ∃ k, joinSize? m n = some k := by
                unfold joinSize?
                split
                · exact ⟨_, rfl⟩
                · have fits : n = 1 ∨ n = m := by
                    have := left.1
                    have := right.1
                    omega
                  exact ⟨_, if_pos fits⟩
              obtain ⟨k, sized⟩ := sizes
              exact ⟨k :: c, by simp [join?, sized, joined]⟩

theorem foldlM_join?_iff {shapes : List Shape} {a c : Shape} :
    shapes.foldlM join? a = some c ↔ IsLeast (a :: shapes) c := by
  induction shapes generalizing a with
  | nil =>
      have own : IsLeast [a] a := ⟨by simp [stretches_refl], fun t bound => bound a (by simp)⟩
      constructor
      · intro h
        cases h
        exact own
      · intro h
        rw [h.unique own]
        rfl
  | cons b rest ih =>
      rw [List.foldlM_cons, Option.bind_eq_bind, Option.bind_eq_some_iff]
      constructor
      · rintro ⟨d, joined, h⟩
        obtain ⟨left, right, least⟩ := join?_isLeast joined
        obtain ⟨above, below⟩ := ih.mp h
        rw [List.forall_mem_cons] at above
        refine ⟨?_, fun t bound => ?_⟩
        · rw [List.forall_mem_cons, List.forall_mem_cons]
          exact ⟨stretches_trans left above.1, stretches_trans right above.1, above.2⟩
        · rw [List.forall_mem_cons, List.forall_mem_cons] at bound
          exact below t (List.forall_mem_cons.mpr ⟨least t bound.1 bound.2.1, bound.2.2⟩)
      · rintro ⟨above, below⟩
        rw [List.forall_mem_cons, List.forall_mem_cons] at above
        obtain ⟨d, joined⟩ := exists_join? above.1 above.2.1
        obtain ⟨left, right, least⟩ := join?_isLeast joined
        refine ⟨d, joined, ih.mpr ⟨?_, fun t bound => ?_⟩⟩
        · exact List.forall_mem_cons.mpr ⟨least c above.1 above.2.1, above.2.2⟩
        · rw [List.forall_mem_cons] at bound
          refine below t (List.forall_mem_cons.mpr ⟨stretches_trans left bound.1, ?_⟩)
          exact List.forall_mem_cons.mpr ⟨stretches_trans right bound.1, bound.2⟩

/-- The common shape is the least one that all shapes stretch to. -/
theorem common?_iff {shapes : List Shape} {c : Shape} :
    common? shapes = some c ↔ IsLeast shapes c := by
  rw [common?, foldlM_join?_iff]
  simp [IsLeast, Stretches]

/-- Only shapes without dimensions have no dimensions in common. -/
theorem common?_eq_nil_iff {shapes : List Shape} :
    common? shapes = some [] ↔ ∀ a ∈ shapes, a = [] := by
  constructor
  · intro joined a there
    have stretches := (common?_iff.mp joined).1 a there
    cases a with
    | nil => rfl
    | cons n shape => exact stretches.elim
  · intro none
    refine common?_iff.mpr ⟨fun a there => ?_, fun t _ => trivial⟩
    rw [none a there]
    trivial

/-- The common shape does not depend on the order or the repetition of the shapes. -/
theorem common?_congr {shapes others : List Shape} (same : ∀ a, a ∈ shapes ↔ a ∈ others) :
    common? shapes = common? others := by
  refine Option.ext fun c => ?_
  rw [common?_iff, common?_iff]
  simp only [IsLeast, same]

/-! ### Shapes that clash -/

/-- At some dimension both shapes have a size, these differ, and neither of them stretches. -/
def Clash (a b : Shape) : Prop :=
  ∃ i m n : Nat, a[i]? = some m ∧ b[i]? = some n ∧ m ≠ n ∧ m ≠ 1 ∧ n ≠ 1

theorem Clash.symm {a b : Shape} (h : Clash a b) : Clash b a := by
  obtain ⟨i, m, n, first, second, different, fixed, fixed'⟩ := h
  exact ⟨i, n, m, second, first, different.symm, fixed', fixed⟩

theorem not_clash_self (a : Shape) : ¬ Clash a a := by
  rintro ⟨i, m, n, first, second, different, -⟩
  exact different (Option.some.inj (first.symm.trans second))

theorem Stretches.getElem? {a b : Shape} (h : Stretches a b) {i m : Nat} (there : a[i]? = some m) :
    ∃ n, b[i]? = some n ∧ (m = 1 ∨ m = n) := by
  induction a generalizing b i with
  | nil => cases there
  | cons k shape ih =>
      cases b with
      | nil => exact h.elim
      | cons n other =>
          cases i with
          | zero =>
              cases there
              exact ⟨n, rfl, h.1⟩
          | succ i => exact ih h.2 there

/-- Shapes that stretch to one shape do not clash. -/
theorem Stretches.not_clash {a b c : Shape} (left : Stretches a c) (right : Stretches b c) :
    ¬ Clash a b := by
  rintro ⟨i, m, n, first, second, different, fixed, fixed'⟩
  obtain ⟨k, there, sizes⟩ := left.getElem? first
  obtain ⟨k', there', sizes'⟩ := right.getElem? second
  obtain rfl : k = k' := Option.some.inj (there.symm.trans there')
  omega

/-- Every size of a join is one of the shapes that are joined. -/
theorem getElem?_of_join? {a b common : Shape} (h : join? a b = some common) {i k : Nat}
    (there : common[i]? = some k) : a[i]? = some k ∨ b[i]? = some k := by
  induction a generalizing b common i with
  | nil =>
      rw [join?_nil_left] at h
      cases h
      exact .inr there
  | cons m shape ih =>
      cases b with
      | nil =>
          rw [join?_nil_right] at h
          cases h
          exact .inl there
      | cons n other =>
          obtain ⟨size, sizes, h⟩ := Option.bind_eq_some_iff.mp h
          obtain ⟨rest, joined, h⟩ := Option.bind_eq_some_iff.mp h
          cases h
          cases i with
          | zero =>
              cases there
              obtain ⟨-, -, rfl | rfl⟩ := joinSize?_eq_some sizes
              · exact .inl rfl
              · exact .inr rfl
          | succ i => exact ih joined there

theorem clash_of_join?_none {a b : Shape} (h : join? a b = none) : Clash a b := by
  induction a generalizing b with
  | nil => simp at h
  | cons m shape ih =>
      cases b with
      | nil => simp at h
      | cons n other =>
          cases sizes : joinSize? m n with
          | none =>
              refine ⟨0, m, n, rfl, rfl, ?_⟩
              unfold joinSize? at sizes
              split at sizes
              · cases sizes
              · split at sizes
                · cases sizes
                · omega
          | some size =>
              cases joined : join? shape other with
              | some rest => simp [join?, sizes, joined] at h
              | none =>
                  obtain ⟨i, k, l, first, second, apart⟩ := ih joined
                  exact ⟨i + 1, k, l, first, second, apart⟩

/-- When a join stands for two of several shapes, their sizes are still sizes of the shapes. -/
theorem exists_size_of_join? {start b joined : Shape} {rest : List Shape}
    (h : join? start b = some joined) {a : Shape} (inside : a ∈ joined :: rest) {i k : Nat}
    (there : a[i]? = some k) : ∃ x ∈ start :: b :: rest, x[i]? = some k := by
  obtain rfl | later := List.mem_cons.mp inside
  · obtain left | right := getElem?_of_join? h there
    · exact ⟨start, by simp, left⟩
    · exact ⟨b, by simp, right⟩
  · exact ⟨a, by simp [later], there⟩

theorem clash_of_foldlM_none {shapes : List Shape} {start : Shape}
    (h : shapes.foldlM join? start = none) :
    ∃ a ∈ start :: shapes, ∃ b ∈ start :: shapes, Clash a b := by
  induction shapes generalizing start with
  | nil => cases h
  | cons b rest ih =>
      rw [List.foldlM_cons, Option.bind_eq_bind] at h
      cases joined : join? start b with
      | none =>
          exact ⟨start, List.mem_cons_self, b, by simp, clash_of_join?_none joined⟩
      | some d =>
          rw [joined, Option.bind_some] at h
          obtain ⟨x, inside, y, inside', i, m, n, first, second, apart⟩ := ih h
          -- A size of the join is one of a shape before, so the clash was there before.
          obtain ⟨a, listed, left⟩ := exists_size_of_join? joined inside first
          obtain ⟨a', listed', right⟩ := exists_size_of_join? joined inside' second
          exact ⟨a, listed, a', listed', i, m, n, left, right, apart⟩

/-- Shapes have no common shape if two of them clash. -/
theorem common?_eq_none_iff {shapes : List Shape} :
    common? shapes = none ↔ ∃ a ∈ shapes, ∃ b ∈ shapes, Clash a b := by
  constructor
  · intro h
    obtain ⟨a, inside, b, inside', clash⟩ := clash_of_foldlM_none h
    have listed {x y : Shape} (clash : Clash x y) (inside : x ∈ [] :: shapes) : x ∈ shapes := by
      obtain ⟨i, m, n, first, -⟩ := clash
      refine List.mem_of_ne_of_mem ?_ inside
      rintro rfl
      cases first
    exact ⟨a, listed clash inside, b, listed clash.symm inside', clash⟩
  · rintro ⟨a, inside, b, inside', clash⟩
    refine Option.eq_none_iff_forall_ne_some.mpr fun c joined => ?_
    have stretches := (common?_iff.mp joined).1
    exact (stretches a inside).not_clash (stretches b inside') clash

theorem common?_pair_eq_none_iff {a b : Shape} : common? [a, b] = none ↔ Clash a b := by
  have pair : (∃ c ∈ [a, b], ∃ d ∈ [a, b], Clash c d) ↔ Clash a b ∨ Clash b a := by
    simp [not_clash_self]
  rw [common?_eq_none_iff, pair]
  exact ⟨fun h => h.elim id Clash.symm, .inl⟩

end TablePlan.Shape
