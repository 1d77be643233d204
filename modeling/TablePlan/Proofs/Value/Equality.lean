import Mathlib.Data.List.Basic
import TablePlan.Proofs.Eval.Operator

/-!
# Equality by value and by structure

Equality by value promotes integers to floats and is missing where it depends on a missing value;
having the same structure knows neither rule. The two disagree exactly if the values do not differ
and somewhere in them, through lists, a missing value stands, or an integer against a float.
-/

namespace TablePlan

namespace Value

/-- Doubles are ordered as equals exactly if they are equal as numbers. -/
theorem compareFloat?_eq_iff {x y : Float} : compareFloat? x y = some .eq ↔ (x == y) = true := by
  have exclusive (equal : (x == y) = true) : ¬ x < y := by
    have is : (x.toModel.unpack.compare y.toModel.unpack == some .eq) = true := equal
    intro below
    have less : decide (x.toModel < y.toModel) = true := below
    have order : x.toModel.unpack.compare y.toModel.unpack = some .lt :=
      beq_iff_eq.mp (of_decide_eq_true less)
    rw [order] at is
    cases is
  unfold compareFloat?
  by_cases equal : (x == y) = true
  · simp only [if_neg (exclusive equal), equal, if_true]
  · rw [if_neg equal]
    refine iff_of_false (fun h => ?_) equal
    split at h
    · cases h
    · split at h <;> cases h

/-! ### Lists -/

/-- Induction through lists, where grids and records are not taken apart. -/
theorem list_induction {P : Value → Prop}
    (lists : ∀ items, (∀ v ∈ items, P v) → P (list items))
    (others : ∀ v, (∀ items, v ≠ list items) → P v) : ∀ v, P v
  | list items => lists items fun v _ => list_induction lists others v
  | missing | bool _ | int _ | float _ | string _ | grid _ | record _ | spec _ => others _ nofun

variable {as bs : List Value}

theorem sameItems_iff : sameItems as bs = true
    ↔ as.length = bs.length ∧ ∀ pair ∈ as.zip bs, pair.1.same pair.2 = true := by
  induction as generalizing bs with
  | nil => cases bs <;> simp [sameItems]
  | cons a as ih =>
      cases bs with
      | nil => simp [sameItems]
      | cons b bs =>
          rw [sameItems, Bool.and_eq_true, ih, List.zip_cons_cons, List.forall_mem_cons,
            List.length_cons, List.length_cons, Nat.add_right_cancel_iff]
          exact and_left_comm

/-- A difference between two elements settles that lists differ. -/
theorem equalItems?_eq_false_iff : equalItems? as bs = some false
    ↔ ∃ pair ∈ as.zip bs, pair.1.equal? pair.2 = some false := by
  induction as generalizing bs with
  | nil => simp [equalItems?]
  | cons a as ih =>
      cases bs with
      | nil => simp [equalItems?]
      | cons b bs =>
          rw [equalItems?, List.zip_cons_cons, List.exists_mem_cons_iff, ← ih]
          rcases a.equal? b with - | - | - <;> rcases equalItems? as bs with - | - | - <;> simp

/-- Lists are equal if all their elements are. -/
theorem equalItems?_eq_true_iff : equalItems? as bs = some true
    ↔ ∀ pair ∈ as.zip bs, pair.1.equal? pair.2 = some true := by
  induction as generalizing bs with
  | nil => simp [equalItems?]
  | cons a as ih =>
      cases bs with
      | nil => simp [equalItems?]
      | cons b bs =>
          rw [equalItems?, List.zip_cons_cons, List.forall_mem_cons, ← ih]
          rcases a.equal? b with - | - | - <;> rcases equalItems? as bs with - | - | - <;> simp

theorem equal?_list : (list as).equal? (list bs)
    = if as.length = bs.length then equalItems? as bs else some false := by
  rw [equal?]

/-- Equality of two values that are not missing depends on a missing one only between lists of the
same length. -/
theorem lists_of_equal?_eq_none {a b : Value} (h : a.equal? b = none) (first : a.isMissing = false)
    (second : b.isMissing = false) :
    ∃ as bs, a = list as ∧ b = list bs ∧ as.length = bs.length := by
  have single : a.isCollection = true := by
    by_contra no
    rw [Bool.not_eq_true] at no
    have absent := (Eval.equal?_eq_none_iff no).mp h
    rw [first, second] at absent
    cases absent
  cases a with
  | list as =>
      cases b with
      | list bs =>
          refine ⟨as, bs, rfl, rfl, ?_⟩
          by_contra differ
          rw [equal?, if_neg differ] at h
          cases h
      | missing => cases second
      | _ => cases h
  | grid g =>
      cases b with
      | missing => cases second
      | _ => cases h
  | _ => cases single

/-! ### Mixed values -/

/-- One of two values is missing, or they are an integer and a float, or lists that hold such values
at the same position. -/
inductive Mixed : Value → Value → Prop
  | missingLeft (b : Value) : Mixed missing b
  | missingRight (a : Value) : Mixed a missing
  | intFloat (i : Int64) (x : Float) : Mixed (int i) (float x)
  | floatInt (x : Float) (i : Int64) : Mixed (float x) (int i)
  | list {as bs : List Value} {pair : Value × Value} (inside : pair ∈ as.zip bs)
    (elements : Mixed pair.1 pair.2) : Mixed (list as) (list bs)

theorem mixed_list_iff :
    Mixed (list as) (list bs) ↔ ∃ pair ∈ as.zip bs, Mixed pair.1 pair.2 := by
  constructor
  · intro mixed
    cases mixed with
    | list inside elements => exact ⟨_, inside, elements⟩
  · rintro ⟨pair, inside, elements⟩
    exact .list inside elements

theorem equal?_ints (i j : Int64) : (int i).equal? (int j) = some ((int i).same (int j)) := by
  change some (some (compare i j) == some .eq) = some (i == j)
  rw [Option.some_inj, Bool.eq_iff_iff, beq_iff_eq, beq_iff_eq, Option.some_inj,
    Std.compare_eq_iff_eq]

theorem equal?_floats (x y : Float) :
    (float x).equal? (float y) = some ((float x).same (float y)) := by
  change some (compareFloat? x y == some .eq) = some (x == y)
  rw [Option.some_inj, Bool.eq_iff_iff, beq_iff_eq, compareFloat?_eq_iff]

/-- Values that are not mixed and not both lists are equal exactly if they are the same. -/
theorem equal?_of_unlisted {a b : Value} (pure : ¬ Mixed a b)
    (unlisted : ∀ as bs, a = list as → b ≠ list bs) : a.equal? b = some (a.same b) := by
  cases a with
  | missing => exact absurd (.missingLeft b) pure
  | int i =>
      cases b with
      | missing => exact absurd (.missingRight _) pure
      | float x => exact absurd (.intFloat i x) pure
      | int j => exact equal?_ints i j
      | _ => rfl
  | float x =>
      cases b with
      | missing => exact absurd (.missingRight _) pure
      | int i => exact absurd (.floatInt x i) pure
      | float y => exact equal?_floats x y
      | _ => rfl
  | list as =>
      cases b with
      | missing => exact absurd (.missingRight _) pure
      | list bs => exact absurd rfl (unlisted as bs rfl)
      | _ => rfl
  | _ =>
      cases b with
      | missing => exact absurd (.missingRight _) pure
      | _ => rfl

theorem equalItems?_of_each (count : as.length = bs.length)
    (each : ∀ pair ∈ as.zip bs, pair.1.equal? pair.2 = some (pair.1.same pair.2)) :
    equalItems? as bs = some (sameItems as bs) := by
  induction as generalizing bs with
  | nil =>
      obtain rfl := List.eq_nil_of_length_eq_zero count.symm
      rfl
  | cons a as ih =>
      cases bs with
      | nil => cases count
      | cons b bs =>
          rw [List.zip_cons_cons, List.forall_mem_cons] at each
          rw [equalItems?, sameItems, each.1, ih (Nat.succ.inj count) each.2]
          cases a.same b <;> rfl

/-- Values that are not mixed are equal exactly if they are the same. -/
theorem equal?_of_not_mixed {a b : Value} (pure : ¬ Mixed a b) : a.equal? b = some (a.same b) := by
  induction a using list_induction generalizing b with
  | others a unlisted => exact equal?_of_unlisted pure fun as bs is => absurd is (unlisted as)
  | lists as ih =>
      cases b with
      | list bs =>
          change _ = some (sameItems as bs)
          rw [equal?_list]
          split
          · exact equalItems?_of_each ‹_› fun pair inside =>
              ih pair.1 (List.of_mem_zip inside).1 fun elements => pure (.list inside elements)
          · rename_i count
            rw [Bool.eq_false_iff.mpr fun items => count (sameItems_iff.mp items).1]
      | _ => exact equal?_of_unlisted pure fun _ _ _ => nofun

/-- Values of the same structure do not differ. -/
theorem equal?_ne_false_of_same {a b : Value} (same : a.same b = true) :
    a.equal? b ≠ some false := by
  induction a using list_induction generalizing b with
  | lists as ih =>
      cases b with
      | list bs =>
          obtain ⟨count, each⟩ := sameItems_iff.mp same
          rw [equal?_list, if_pos count, Ne, equalItems?_eq_false_iff]
          rintro ⟨pair, inside, differ⟩
          exact ih pair.1 (List.of_mem_zip inside).1 (each pair inside) differ
      | _ => cases same
  | others a unlisted =>
      -- What is not mixed is settled; of mixed values only those that are missing can be the same.
      by_cases mixed : Mixed a b
      · cases mixed with
        | missingLeft => nofun
        | missingRight => cases a <;> nofun
        | intFloat | floatInt => cases same
        | list => exact absurd rfl (unlisted _)
      · rw [equal?_of_not_mixed mixed, same]
        nofun

/-- Where values that are equal are mixed, their structures differ. -/
theorem Mixed.same_eq_false {a b : Value} (mixed : Mixed a b) (equal : a.equal? b = some true) :
    a.same b = false := by
  induction mixed with
  | missingLeft b => cases equal
  | missingRight a => cases a <;> cases equal
  | intFloat | floatInt => rfl
  | @list as bs pair inside elements ih =>
      refine Bool.eq_false_iff.mpr fun same => ?_
      obtain ⟨count, each⟩ := sameItems_iff.mp same
      rw [equal?_list, if_pos count, equalItems?_eq_true_iff] at equal
      have differ := ih (equal pair inside)
      rw [each pair inside] at differ
      cases differ

/-- Equality by value and by structure agree exactly on values that differ or are not mixed. -/
theorem equal?_eq_same_iff {a b : Value} :
    a.equal? b = some (a.same b) ↔ a.equal? b = some false ∨ ¬ Mixed a b := by
  constructor
  · intro agree
    by_cases mixed : Mixed a b
    · refine .inl ?_
      cases same : a.same b with
      | false => rw [agree, same]
      | true =>
          rw [same] at agree
          rw [mixed.same_eq_false agree] at same
          cases same
    · exact .inr mixed
  · rintro (differ | pure)
    · have unlike : a.same b = false :=
        Bool.eq_false_iff.mpr fun same => equal?_ne_false_of_same same differ
      rw [differ, unlike]
    · exact equal?_of_not_mixed pure

end Value

end TablePlan
