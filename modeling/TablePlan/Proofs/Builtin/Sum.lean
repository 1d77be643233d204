import Mathlib.Algebra.BigOperators.Group.List.Basic
import Mathlib.Algebra.Order.BigOperators.Group.List
import TablePlan.Proofs.Eval.Integers
import TablePlan.Proofs.Registry

/-!
# Sums of integers

A sum of integers is the exact total, or it is refused because the total of the first ones does not
fit a word. That depends on their order: if the total fits, some order is summed, and every order is
if the gains and the losses fit by themselves.
-/

namespace TablePlan.Builtin

open Value

variable {σ : Type}

/-- A word holds the integer. -/
def Fits (i : Int) : Prop :=
  ∃ x : Int64, x.toInt = i

/-- The mathematical total. -/
def exactSum (xs : List Int64) : Int :=
  (xs.map Int64.toInt).sum

/-- All totals on the way fit a word. -/
def StaysInRange (start : Int) (xs : List Int64) : Prop :=
  ∀ p, p <+: xs → Fits (start + exactSum p)

/-- The values above zero. -/
def gains (xs : List Int64) : List Int64 :=
  xs.filter fun i => decide (0 < i.toInt)

/-- The values below zero. -/
def losses (xs : List Int64) : List Int64 :=
  xs.filter fun i => decide (i.toInt < 0)

/-! ### Totals -/

theorem fits_iff {i : Int} : Fits i ↔ Int64.minValue.toInt ≤ i ∧ i ≤ Int64.maxValue.toInt :=
  Eval.exists_toInt_eq_iff

theorem fits_zero : Fits 0 := ⟨0, rfl⟩

theorem Fits.between {a b i : Int} (ha : Fits a) (hb : Fits b) (least : a ≤ i) (most : i ≤ b) :
    Fits i := by
  rw [fits_iff] at ha hb ⊢
  omega

@[simp] theorem exactSum_nil : exactSum [] = 0 := rfl

@[simp] theorem exactSum_cons (i : Int64) (xs : List Int64) :
    exactSum (i :: xs) = i.toInt + exactSum xs := by
  simp [exactSum]

@[simp] theorem exactSum_append (xs ys : List Int64) :
    exactSum (xs ++ ys) = exactSum xs + exactSum ys := by
  simp [exactSum]

theorem exactSum_perm {xs ys : List Int64} (same : xs.Perm ys) : exactSum xs = exactSum ys :=
  (same.map Int64.toInt).sum_eq

theorem exactSum_nonneg {xs : List Int64} (each : ∀ i ∈ xs, 0 ≤ i.toInt) : 0 ≤ exactSum xs :=
  List.sum_nonneg (by simpa using each)

theorem exactSum_nonpos {xs : List Int64} (each : ∀ i ∈ xs, i.toInt ≤ 0) : exactSum xs ≤ 0 := by
  induction xs with
  | nil => exact le_refl _
  | cons i rest ih =>
      rw [List.forall_mem_cons] at each
      have later := ih each.2
      rw [exactSum_cons]
      omega

/-- The total of some of the values lies between the losses and the gains. -/
theorem exactSum_sublist {p xs : List Int64} (part : p.Sublist xs) :
    exactSum (losses xs) ≤ exactSum p ∧ exactSum p ≤ exactSum (gains xs) := by
  induction part with
  | slnil => exact ⟨le_refl _, le_refl _⟩
  | cons i _ ih =>
      simp only [losses, gains, List.filter_cons] at ih ⊢
      split <;> split <;> simp_all <;> omega
  | cons_cons i _ ih =>
      simp only [losses, gains, List.filter_cons] at ih ⊢
      split <;> split <;> simp_all <;> omega

/-! ### Totals on the way -/

theorem staysInRange_cons {start : Int} {i : Int64} {rest : List Int64} :
    StaysInRange start (i :: rest) ↔ Fits start ∧ StaysInRange (start + i.toInt) rest := by
  constructor
  · intro h
    refine ⟨by simpa using h [] List.nil_prefix, fun p part => ?_⟩
    have later := h (i :: p) (List.cons_prefix_cons.mpr ⟨rfl, part⟩)
    rwa [exactSum_cons, ← Int.add_assoc] at later
  · rintro ⟨first, later⟩ p part
    obtain rfl | ⟨q, rfl, shorter⟩ := List.prefix_cons_iff.mp part
    · simpa using first
    · rw [exactSum_cons, ← Int.add_assoc]
      exact later q shorter

theorem StaysInRange.start {start : Int} {xs : List Int64} (h : StaysInRange start xs) :
    Fits start := by
  simpa using h [] List.nil_prefix

theorem StaysInRange.total {xs : List Int64} (h : StaysInRange 0 xs) : Fits (exactSum xs) := by
  simpa using h xs (List.prefix_refl xs)

/-- Values of one sign stay in range if they end there. -/
theorem staysInRange_of_one_sign {start : Int} {xs : List Int64}
    (sign : (∀ i ∈ xs, 0 ≤ i.toInt) ∨ ∀ i ∈ xs, i.toInt ≤ 0) (first : Fits start)
    (last : Fits (start + exactSum xs)) : StaysInRange start xs := by
  rintro p ⟨q, rfl⟩
  simp only [exactSum_append, List.forall_mem_append] at sign last
  obtain ⟨before, after⟩ | ⟨before, after⟩ := sign
  · have := exactSum_nonneg before
    have := exactSum_nonneg after
    exact first.between last (by omega) (by omega)
  · have := exactSum_nonpos before
    have := exactSum_nonpos after
    exact last.between first (by omega) (by omega)

/-- Whatever the order, values whose gains and losses fit stay in range. -/
theorem staysInRange_of_fits {xs : List Int64} (above : Fits (exactSum (gains xs)))
    (below : Fits (exactSum (losses xs))) : StaysInRange 0 xs := by
  intro p part
  obtain ⟨least, most⟩ := exactSum_sublist part.sublist
  rw [Int.zero_add]
  exact below.between above least most

/-! ### An order that stays in range -/

/-- The values from zero on and the others in turns: one from zero on while the total is not above
zero, and one of the others while it is. -/
def alternate (start : Int) : List Int64 → List Int64 → List Int64
  | [], others => others
  | values, [] => values
  | i :: values, j :: others =>
    if start ≤ 0 then i :: alternate (start + i.toInt) values (j :: others)
    else j :: alternate (start + j.toInt) (i :: values) others
termination_by values others => values.length + others.length

theorem alternate_perm (start : Int) (values others : List Int64) :
    (alternate start values others).Perm (values ++ others) := by
  fun_induction alternate start values others with
  | case1 => exact .refl _
  | case2 => simp
  | case3 start i values j others _ ih => exact ih.cons i
  | case4 start i values j others _ ih => exact (ih.cons j).trans List.perm_middle.symm

theorem staysInRange_alternate {start : Int} {values others : List Int64} (first : Fits start)
    (above : ∀ i ∈ values, 0 ≤ i.toInt) (below : ∀ i ∈ others, i.toInt ≤ 0)
    (last : Fits (start + exactSum values + exactSum others)) :
    StaysInRange start (alternate start values others) := by
  fun_induction alternate start values others with
  | case1 => exact staysInRange_of_one_sign (.inr below) first (by simpa using last)
  | case2 => exact staysInRange_of_one_sign (.inl above) first (by simpa using last)
  | case3 start i values j others low ih =>
      rw [List.forall_mem_cons] at above
      have next : Fits (start + i.toInt) := first.between ⟨i, rfl⟩ (by omega) (by omega)
      refine staysInRange_cons.mpr ⟨first, ih next above.2 below ?_⟩
      rwa [exactSum_cons, ← Int.add_assoc] at last
  | case4 start i values j others high ih =>
      rw [List.forall_mem_cons] at below
      have next : Fits (start + j.toInt) := Fits.between ⟨j, rfl⟩ first (by omega) (by omega)
      refine staysInRange_cons.mpr ⟨first, ih next above below.2 ?_⟩
      have moved : start + exactSum (i :: values) + exactSum (j :: others)
          = start + j.toInt + exactSum (i :: values) + exactSum others := by
        rw [exactSum_cons j]
        omega
      rwa [moved] at last

/-- Values whose total fits stay in range in some order. -/
theorem exists_staysInRange_iff {xs : List Int64} :
    (∃ ys, ys.Perm xs ∧ StaysInRange 0 ys) ↔ Fits (exactSum xs) := by
  constructor
  · rintro ⟨ys, same, stays⟩
    rw [← exactSum_perm same]
    exact stays.total
  · intro fits
    have parts := List.filter_append_perm (fun i : Int64 => decide (0 ≤ i.toInt)) xs
    refine ⟨_, (alternate_perm 0 _ _).trans parts, staysInRange_alternate fits_zero ?_ ?_ ?_⟩
    · simp
    · intro i inside
      have negative : i.toInt < 0 := by simpa using (List.mem_filter.mp inside).2
      exact Int.le_of_lt negative
    · rwa [Int.zero_add, ← exactSum_append, exactSum_perm parts]

/-! ### The sum -/

theorem sumInts_of_staysInRange {start : Int} {xs : List Int64} (stays : StaysInRange start xs) :
    ∃ i : Int64, i.toInt = start + exactSum xs ∧ sumInts start xs = .ok i := by
  induction xs generalizing start with
  | nil =>
      obtain ⟨x, rfl⟩ := stays.start
      exact ⟨x, by simp, by rw [sumInts, Int64.ofInt_toInt]⟩
  | cons i rest ih =>
      obtain ⟨-, later⟩ := staysInRange_cons.mp stays
      obtain ⟨total, is, summed⟩ := ih later
      refine ⟨total, by rw [is, exactSum_cons, Int.add_assoc], ?_⟩
      rw [sumInts, if_pos (fits_iff.mp later.start), summed]

theorem sumInts_of_overflow {start : Int} {xs : List Int64} (first : Fits start)
    (leaves : ¬ StaysInRange start xs) :
    sumInts start xs = .error (.domain "integer overflow in sum") := by
  induction xs generalizing start with
  | nil => exact absurd (staysInRange_of_one_sign (by simp) first (by simpa using first)) leaves
  | cons i rest ih =>
      rw [sumInts]
      split
      · rename_i fits
        have next := fits_iff.mpr fits
        exact ih next fun later => leaves (staysInRange_cons.mpr ⟨first, later⟩)
      · rfl

/-- The sum of integers that the standard functions give. -/
def summed (version : String) (xs : List Int64) (s : σ) : Except RegistryError Value × σ :=
  (Registry.standard version).call "sum" [list (xs.map int)] s

/-- The refusal of a sum. -/
def sumOverflow : RegistryError :=
  .function "sum" (.domain "integer overflow in sum")

theorem allInts?_ints (xs : List Int64) : allInts? (xs.map int) = some xs := by
  induction xs with
  | nil => rfl
  | cons i rest ih => simp [allInts?, ih]

theorem summed_eq (version : String) (xs : List Int64) (s : σ) :
    summed version xs s = (((sumInts 0 xs).map int).mapError (.function "sum"), s) := by
  have found : (Registry.standard version : Registry σ).lookup "sum" [list (xs.map int)].length
      = .ok (poisoned "sum" total).toOverload := rfl
  have present : (xs.map int).any isMissing = false := by simp [isMissing]
  have ran : (poisoned "sum" total).run [list (xs.map int)] = (sumInts 0 xs).map int := by
    change (if (xs.map int).any isMissing then _ else total (xs.map int)) = _
    rw [present, if_neg (by decide), total, allInts?_ints]
    change (do return int (← sumInts 0 xs)) = _
    cases sumInts 0 xs <;> rfl
  rw [summed, Registry.call_of_pure found, ran]

theorem summed_of_staysInRange (version : String) {xs : List Int64} (stays : StaysInRange 0 xs)
    (s : σ) : ∃ i : Int64, i.toInt = exactSum xs ∧ summed version xs s = (.ok (.int i), s) := by
  obtain ⟨i, total, ran⟩ := sumInts_of_staysInRange stays
  refine ⟨i, by simpa using total, ?_⟩
  rw [summed_eq, ran]
  rfl

theorem summed_of_overflow (version : String) {xs : List Int64} (leaves : ¬ StaysInRange 0 xs)
    (s : σ) : summed version xs s = (.error sumOverflow, s) := by
  rw [summed_eq, sumInts_of_overflow fits_zero leaves]
  rfl

/-- A sum that does not depend on the order of its values is refused in every order or in none. -/
theorem staysInRange_of_summed {version : String} {xs ys : List Int64} {s : σ}
    (same : summed version ys s = summed version xs s) (stays : StaysInRange 0 xs) :
    StaysInRange 0 ys := by
  by_contra leaves
  obtain ⟨i, -, ran⟩ := summed_of_staysInRange version stays s
  rw [summed_of_overflow version leaves, ran] at same
  cases same

/-- Every order of the values has the same sum exactly if the total does not fit a word, or the gains
and the losses do by themselves. -/
theorem summed_perm_iff {version : String} {xs : List Int64} {s : σ} :
    (∀ ys, ys.Perm xs → summed version ys s = summed version xs s)
      ↔ ¬ Fits (exactSum xs) ∨ Fits (exactSum (gains xs)) ∧ Fits (exactSum (losses xs)) := by
  constructor
  · intro independent
    by_cases fits : Fits (exactSum xs)
    · right
      obtain ⟨ys, order, stays⟩ := exists_staysInRange_iff.mpr fits
      have whole : StaysInRange 0 xs := staysInRange_of_summed (independent ys order).symm stays
      -- Gains or losses that come first are a total on the way.
      have first (p : Int64 → Bool) : Fits (exactSum (xs.filter p)) := by
        have reordered := List.filter_append_perm p xs
        have stays := staysInRange_of_summed (independent _ reordered) whole
        simpa using stays (xs.filter p) (List.prefix_append _ _)
      exact ⟨first _, first _⟩
    · exact .inl fits
  · rintro (outside | ⟨above, below⟩) ys order
    · have leaves {zs : List Int64} (order : zs.Perm xs) : ¬ StaysInRange 0 zs := fun stays =>
        outside (exactSum_perm order ▸ stays.total)
      rw [summed_of_overflow version (leaves order), summed_of_overflow version (leaves (.refl xs))]
    · have above' : Fits (exactSum (gains ys)) := by rwa [gains, exactSum_perm (order.filter _)]
      have below' : Fits (exactSum (losses ys)) := by rwa [losses, exactSum_perm (order.filter _)]
      obtain ⟨i, total, ran⟩ := summed_of_staysInRange version (staysInRange_of_fits above' below') s
      obtain ⟨j, total', ran'⟩ := summed_of_staysInRange version (staysInRange_of_fits above below) s
      obtain rfl : i = j := Int64.toInt_inj.mp (by rw [total, total', exactSum_perm order])
      rw [ran, ran']

/-- A sum of integers is the exact total if all totals on the way fit a word, and is refused for an
overflow otherwise. So it depends on the order of the values only in whether it is refused: in every
order that is summed it is the exact total, there is such an order exactly if the total fits, and all
orders agree exactly if the total does not fit or the gains and the losses do by themselves. -/
theorem sum_of_integers (version : String) (xs : List Int64) (s : σ) :
    (StaysInRange 0 xs → ∃ i : Int64, i.toInt = exactSum xs ∧ summed version xs s = (.ok (.int i), s))
    ∧ (¬ StaysInRange 0 xs → summed version xs s = (.error sumOverflow, s))
    ∧ (∀ ys : List Int64, ys.Perm xs →
      (∃ i : Int64, i.toInt = exactSum xs ∧ summed version ys s = (.ok (.int i), s))
        ∨ summed version ys s = (.error sumOverflow, s))
    ∧ ((∃ ys : List Int64, ys.Perm xs ∧ ∃ i, summed version ys s = (.ok (.int i), s))
      ↔ Fits (exactSum xs))
    ∧ ((∀ ys : List Int64, ys.Perm xs → summed version ys s = summed version xs s)
      ↔ ¬ Fits (exactSum xs) ∨ Fits (exactSum (gains xs)) ∧ Fits (exactSum (losses xs))) := by
  refine ⟨fun stays => summed_of_staysInRange version stays s,
    fun leaves => summed_of_overflow version leaves s, fun ys order => ?_, ?_, summed_perm_iff⟩
  · by_cases stays : StaysInRange 0 ys
    · rw [← exactSum_perm order]
      exact .inl (summed_of_staysInRange version stays s)
    · exact .inr (summed_of_overflow version stays s)
  · rw [← exists_staysInRange_iff]
    refine exists_congr fun ys => and_congr_right fun _ => ⟨?_, fun stays => ?_⟩
    · rintro ⟨i, ran⟩
      by_contra leaves
      rw [summed_of_overflow version leaves] at ran
      cases ran
    · obtain ⟨i, -, ran⟩ := summed_of_staysInRange version stays s
      exact ⟨i, ran⟩

/-- One more than the greatest integer is refused, also with one less after it. In another order the
same values are summed. -/
theorem greatest_plus_one_minus_one :
    summed "1" [Int64.maxValue, 1, -1] () = (.error sumOverflow, ())
    ∧ (∃ i : Int64, i.toInt = exactSum [1, -1, Int64.maxValue]
      ∧ summed "1" [1, -1, Int64.maxValue] () = (.ok (.int i), ()))
    ∧ ¬ ∀ ys : List Int64, ys.Perm [Int64.maxValue, 1, -1] →
      summed "1" ys () = summed "1" [Int64.maxValue, 1, -1] () := by
  obtain ⟨-, refused, -, -, independent⟩ := sum_of_integers "1" [Int64.maxValue, 1, -1] ()
  obtain ⟨sums, -⟩ := sum_of_integers "1" [1, -1, Int64.maxValue] ()
  have beyond : ¬ Fits (Int64.maxValue.toInt + 1) := by
    rw [fits_iff]
    omega
  have leaves : ¬ StaysInRange 0 [Int64.maxValue, 1, -1] := fun stays =>
    beyond (stays [Int64.maxValue, 1] ⟨[-1], rfl⟩)
  have stays : StaysInRange 0 [1, -1, Int64.maxValue] := by
    simp only [staysInRange_cons]
    exact ⟨⟨0, rfl⟩, ⟨1, rfl⟩, ⟨0, rfl⟩, staysInRange_of_one_sign (by simp) ⟨Int64.maxValue, rfl⟩
      ⟨Int64.maxValue, rfl⟩⟩
  refine ⟨refused leaves, sums stays, fun same => ?_⟩
  obtain outside | ⟨above, -⟩ := independent.mp same
  · exact outside ⟨Int64.maxValue, rfl⟩
  · exact beyond above

/-- The total fits a word, but its sum is refused in one order of the values and not in another. -/
theorem sum_depends_on_order :
    Fits (exactSum [Int64.maxValue, 1, -1])
    ∧ summed "1" [Int64.maxValue, 1, -1] () = (.error sumOverflow, ())
    ∧ [Int64.maxValue, -1, 1].Perm [Int64.maxValue, 1, -1]
    ∧ summed "1" [Int64.maxValue, -1, 1] () = (.ok (.int Int64.maxValue), ()) :=
  ⟨⟨Int64.maxValue, rfl⟩, rfl, by decide, rfl⟩

end TablePlan.Builtin
