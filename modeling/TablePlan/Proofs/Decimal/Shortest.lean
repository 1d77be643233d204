import Mathlib.Algebra.Order.Field.Power
import Mathlib.Tactic.FieldSimp
import Mathlib.Tactic.Linarith
import Mathlib.Tactic.Ring
import TablePlan.Decimal.Shortest

/-!
# Shortest decimals lie in the interval of their double

The shortest decimal of a double is a real that rounds to it. The intervals of two doubles have no
real in common: they meet in one point at most, which belongs to the one with the even mantissa. So
a shortest decimal determines its double.
-/

namespace TablePlan.Decimal

/-- The rational that a decimal stands for. -/
def Digits.value (d : Digits) : ℚ :=
  d.coefficient * (10 : ℚ) ^ d.scale

/-- How far the interval of a double reaches below it, in quarters of its unit. It is narrower
above a power of two. -/
def gap (mantissa : Nat) (exponent : Int) : Nat :=
  if mantissa == Nat.pow 2 52 && decide (-1074 < exponent) then 1 else 2

/-- A number lies in the interval of a double; the ends of the interval belong to it when the
mantissa is even. -/
structure Rounds (mantissa : Nat) (exponent : Int) (x : ℚ) : Prop where
  lower : ((4 * mantissa - gap mantissa exponent : Nat) : ℚ) * 2 ^ (exponent - 2) ≤ x
  upper : x ≤ ((4 * mantissa + 2 : Nat) : ℚ) * 2 ^ (exponent - 2)
  strict : mantissa % 2 = 1 →
    ((4 * mantissa - gap mantissa exponent : Nat) : ℚ) * 2 ^ (exponent - 2) < x
      ∧ x < ((4 * mantissa + 2 : Nat) : ℚ) * 2 ^ (exponent - 2)

/-- The parts of a finite double that is not zero. -/
structure Canonical (mantissa : Nat) (exponent : Int) : Prop where
  pos : 0 < mantissa
  fits : mantissa < 2 ^ 53
  least : -1074 ≤ exponent
  normal : exponent = -1074 ∨ 2 ^ 52 ≤ mantissa

/-! ### The interval of a double -/

/-- Positive and negative powers are kept on two sides of a comparison. -/
theorem zpow_mul_pow (b : ℚ) (nonzero : b ≠ 0) (z : Int) :
    b ^ z * b ^ (-z).toNat = b ^ z.toNat := by
  rw [← zpow_natCast, ← zpow_natCast, ← zpow_add₀ nonzero]
  congr 1
  omega

/-- Comparisons of multiples of the two units are comparisons of the numbers they stand for. -/
theorem exists_scale (exponent scale : Int) : ∃ k : ℚ, 0 < k
    ∧ ((Nat.pow 2 (exponent - 2).toNat * Nat.pow 10 (-scale).toNat : Nat) : ℚ)
      = 2 ^ (exponent - 2) * k
    ∧ ((Nat.pow 2 (2 - exponent).toNat * Nat.pow 10 scale.toNat : Nat) : ℚ) = 10 ^ scale * k := by
  refine ⟨2 ^ (2 - exponent).toNat * 10 ^ (-scale).toNat, by positivity, ?_, ?_⟩
  · have two := zpow_mul_pow 2 (by norm_num) (exponent - 2)
    rw [neg_sub] at two
    simp only [Nat.pow_eq]
    push_cast
    rw [← two]
    ring
  · have ten := zpow_mul_pow 10 (by norm_num) scale
    simp only [Nat.pow_eq]
    push_cast
    rw [← ten]
    ring

/-- What is found on a grid is a decimal in the interval. -/
theorem rounds_of_nearestOn {tie : Tie} {mantissa : Nat} {exponent scale : Int} {d : Digits}
    (h : nearestOn tie mantissa exponent scale = some d) : Rounds mantissa exponent d.value := by
  unfold nearestOn at h
  extract_lets narrow valueUnit gridUnit value lower upper closed inside below doubled middle
    preferAbove at h
  obtain ⟨k, pos, unit, grid⟩ : ∃ k : ℚ, 0 < k ∧ (valueUnit : ℚ) = 2 ^ (exponent - 2) * k
      ∧ (gridUnit : ℚ) = 10 ^ scale * k := exists_scale exponent scale
  have gapped : lower = (4 * mantissa - gap mantissa exponent) * valueUnit := rfl
  have le_iff (a c : Nat) : a * valueUnit ≤ c * gridUnit
      ↔ (a : ℚ) * 2 ^ (exponent - 2) ≤ c * 10 ^ scale := by
    rw [← Nat.cast_le (α := ℚ), Nat.cast_mul a valueUnit, Nat.cast_mul c gridUnit, unit, grid,
      ← mul_assoc, ← mul_assoc, mul_le_mul_iff_left₀ pos]
  have le_iff' (a c : Nat) : c * gridUnit ≤ a * valueUnit
      ↔ (c : ℚ) * 10 ^ scale ≤ a * 2 ^ (exponent - 2) := by
    rw [← Nat.cast_le (α := ℚ), Nat.cast_mul c gridUnit, Nat.cast_mul a valueUnit, unit, grid,
      ← mul_assoc, ← mul_assoc, mul_le_mul_iff_left₀ pos]
  have rounds (c : Nat) (within : inside c = true) :
      Rounds mantissa exponent (Digits.value ⟨c, scale⟩) := by
    simp only [inside] at within
    split at within
    · rename_i even
      rw [Bool.and_eq_true, decide_eq_true_eq, decide_eq_true_eq] at within
      refine ⟨(le_iff _ c).mp (gapped ▸ within.1), (le_iff' _ c).mp within.2, fun odd => ?_⟩
      simp [closed, odd] at even
    · rw [Bool.and_eq_true, decide_eq_true_eq, decide_eq_true_eq] at within
      have low : ((4 * mantissa - gap mantissa exponent : Nat) : ℚ) * 2 ^ (exponent - 2)
          < Digits.value ⟨c, scale⟩ :=
        lt_of_not_ge fun above => absurd ((le_iff' _ c).mpr above) (by
          rw [← gapped]
          exact Nat.not_le_of_lt within.1)
      have high : Digits.value ⟨c, scale⟩
          < ((4 * mantissa + 2 : Nat) : ℚ) * 2 ^ (exponent - 2) :=
        lt_of_not_ge fun above => absurd ((le_iff _ c).mpr above) (Nat.not_le_of_lt within.2)
      exact ⟨low.le, high.le, fun _ => ⟨low, high⟩⟩
  split at h
  · cases h
  · cases h
    exact rounds _ ‹_›
  · cases h
    exact rounds _ ‹_›
  · cases h
    split
    · exact rounds _ ‹_›
    · exact rounds _ ‹_›

theorem value_trim (d : Digits) (fuel : Nat) : (d.trim fuel).value = d.value := by
  induction fuel generalizing d with
  | zero => rfl
  | succ fuel ih =>
      rw [Digits.trim]
      split
      · rename_i multiple
        rw [ih, Digits.value, Digits.value, zpow_add_one₀ (by norm_num)]
        have whole : d.coefficient = d.coefficient / 10 * 10 := by omega
        rw [whole]
        push_cast
        simp
        ring
      · rfl

/-- The decimal that is equal to a double. -/
theorem value_exact (mantissa : Nat) (exponent : Int) :
    Digits.value ⟨mantissa * Nat.pow 2 exponent.toNat * Nat.pow 5 (-exponent).toNat,
      -((-exponent).toNat : Int)⟩ = mantissa * 2 ^ exponent := by
  have two := zpow_mul_pow 2 (by norm_num) exponent
  have ten : (10 : ℚ) ^ (-exponent).toNat = 2 ^ (-exponent).toNat * 5 ^ (-exponent).toNat := by
    rw [← mul_pow]
    norm_num
  have nonzero : (10 : ℚ) ^ (-exponent).toNat ≠ 0 := by positivity
  simp only [Digits.value, Nat.pow_eq, zpow_neg, zpow_natCast]
  push_cast
  rw [mul_inv_eq_iff_eq_mul₀ nonzero, ten, ← two]
  ring

theorem gap_bounds (mantissa : Nat) (exponent : Int) :
    gap mantissa exponent = 1 ∨ gap mantissa exponent = 2 := by
  unfold gap
  split <;> simp

/-- A double lies in its own interval. -/
theorem rounds_self {mantissa : Nat} (exponent : Int) (pos : 0 < mantissa) :
    Rounds mantissa exponent (mantissa * 2 ^ exponent) := by
  have unit : (0 : ℚ) < 2 ^ (exponent - 2) := by positivity
  have four : (2 : ℚ) ^ exponent = 4 * 2 ^ (exponent - 2) := by
    rw [zpow_sub₀ (by norm_num)]
    norm_num
    ring
  have whole : (mantissa : ℚ) * 2 ^ exponent = ((4 * mantissa : Nat) : ℚ) * 2 ^ (exponent - 2) := by
    rw [four]
    push_cast
    ring
  have below : 4 * mantissa - gap mantissa exponent < 4 * mantissa := by
    obtain one | two := gap_bounds mantissa exponent <;> omega
  have low := mul_lt_mul_of_pos_right (Nat.cast_lt (α := ℚ).mpr below) unit
  have high := mul_lt_mul_of_pos_right
    (Nat.cast_lt (α := ℚ).mpr (show 4 * mantissa < 4 * mantissa + 2 by omega)) unit
  rw [whole]
  exact ⟨low.le, high.le, fun _ => ⟨low, high⟩⟩

/-- The shortest decimal of a double lies in its interval. -/
theorem rounds_shortest (tie : Tie) {mantissa : Nat} (exponent : Int) (pos : 0 < mantissa) :
    Rounds mantissa exponent (shortest tie mantissa exponent).value := by
  unfold shortest
  extract_lets top found
  cases result : found with
  | some d =>
      obtain ⟨i, -, on⟩ := List.exists_of_findSome?_eq_some result
      rw [value_trim]
      exact rounds_of_nearestOn on
  | none =>
      rw [value_exact]
      exact rounds_self exponent pos

/-! ### Intervals of different doubles -/

/-- The interval of a double ends where that of a larger one begins, or before. -/
theorem upper_le_lower {m m' : Nat} {e e' : Int} (h : Canonical m e) (h' : Canonical m' e')
    (less : e < e' ∨ e = e' ∧ m < m') :
    ((4 * m + 2 : Nat) : ℚ) * 2 ^ (e - 2) ≤ ((4 * m' - gap m' e' : Nat) : ℚ) * 2 ^ (e' - 2)
      ∧ (((4 * m + 2 : Nat) : ℚ) * 2 ^ (e - 2) = ((4 * m' - gap m' e' : Nat) : ℚ) * 2 ^ (e' - 2)
        → m % 2 = 1 ∨ m' % 2 = 1) := by
  have below : 4 * m + 2 ≤ (4 * m' - gap m' e') * 2 ^ (e' - e).toNat
      ∧ (4 * m + 2 = (4 * m' - gap m' e') * 2 ^ (e' - e).toNat → m % 2 = 1 ∨ m' % 2 = 1) := by
    obtain less | ⟨rfl, less⟩ := less
    · have fits := h.fits
      have least := h.least
      have high : 2 ^ 52 ≤ m' := h'.normal.resolve_left (by omega)
      have quarters : 2 ^ 54 - 1 ≤ 4 * m' - gap m' e' := by
        unfold gap
        split
        · omega
        · rename_i wide
          have other : m' ≠ 2 ^ 52 := by
            rintro rfl
            exact wide (by simp; omega)
          omega
      obtain ⟨k, steps⟩ : ∃ k, (e' - e).toNat = k + 1 := ⟨(e' - e).toNat - 1, by omega⟩
      have double : (4 * m' - gap m' e') * 2 ≤ (4 * m' - gap m' e') * 2 ^ (e' - e).toNat := by
        rw [steps, Nat.pow_succ]
        exact Nat.mul_le_mul_left _ (Nat.le_mul_of_pos_left _ (by positivity))
      exact ⟨by omega, fun _ => by omega⟩
    · obtain one | two := gap_bounds m' e <;> simp <;> omega
  have unit : (0 : ℚ) < 2 ^ (e - 2) := by positivity
  have scaled : (2 : ℚ) ^ (e' - 2) = ((2 ^ (e' - e).toNat : Nat) : ℚ) * 2 ^ (e - 2) := by
    push_cast
    rw [← zpow_natCast, ← zpow_add₀ (by norm_num)]
    congr 1
    omega
  rw [scaled, ← mul_assoc, ← Nat.cast_mul, mul_le_mul_iff_left₀ unit, Nat.cast_le,
    mul_left_inj' unit.ne', Nat.cast_inj]
  exact below

/-- A number lies in the interval of one double at most. -/
theorem Rounds.unique {m m' : Nat} {e e' : Int} {x : ℚ} (h : Canonical m e) (h' : Canonical m' e')
    (r : Rounds m e x) (r' : Rounds m' e' x) : m = m' ∧ e = e' := by
  have apart {m m' : Nat} {e e' : Int} (h : Canonical m e) (h' : Canonical m' e')
      (r : Rounds m e x) (r' : Rounds m' e' x) (less : e < e' ∨ e = e' ∧ m < m') : False := by
    obtain ⟨ends, odd⟩ := upper_le_lower h h' less
    have meet := le_antisymm ends (r'.lower.trans r.upper)
    obtain odd | odd := odd meet
    · exact absurd (r'.lower.trans_lt (r.strict odd).2) (not_lt.mpr ends)
    · exact absurd ((r'.strict odd).1.trans_le r.upper) (not_lt.mpr ends)
  by_contra different
  obtain first | second : (e < e' ∨ e = e' ∧ m < m') ∨ (e' < e ∨ e' = e ∧ m' < m) := by omega
  · exact apart h h' r r' first
  · exact apart h' h r' r second

/-- The shortest decimal of a double determines it. -/
theorem shortest_determines (tie : Tie) {m m' : Nat} {e e' : Int} (h : Canonical m e)
    (h' : Canonical m' e') (same : (shortest tie m e).value = (shortest tie m' e').value) :
    m = m' ∧ e = e' :=
  Rounds.unique h h' (rounds_shortest tie e h.pos) (same ▸ rounds_shortest tie e' h'.pos)

end TablePlan.Decimal
