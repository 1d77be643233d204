import Mathlib
import TablePlan.Decimal.Reading

/-!
# Positive doubles

A double is positive if its sign bit is clear and it is a number: zero, finite or infinite. On such
doubles equality of numbers is equality, and every decimal without a sign is read as one of them.
-/

namespace TablePlan.Decimal

open Float.Model Float.Model.UnpackedFloat

/-- The bits of a double with these parts and a clear sign. -/
abbrev parts (exponent : BitVec 11) (mantissa : BitVec 52) : BitVec 64 :=
  packComponents .binary64 .positive exponent mantissa

/-- A double with a clear sign that is a number. -/
def Positive (x : Float) : Prop :=
  ∃ exponent mantissa, x.toModel.toBits.toBitVec = parts exponent mantissa
    ∧ (exponent = -1#11 → mantissa = 0#52)

theorem unpackSign_parts (exponent : BitVec 11) (mantissa : BitVec 52) :
    Sign.ofBitVec (@unpackSign .binary64 (parts exponent mantissa)) = .positive := by
  have sign : (parts exponent mantissa).extractLsb 63 63 = 0#1 := by
    ext i hi
    obtain rfl : i = 0 := by omega
    change ((0#1 ++ exponent ++ mantissa : BitVec (1 + 11 + 52)).extractLsb 63 63)[0] = (0#1)[0]
    rw [BitVec.extractLsb, BitVec.getElem_extractLsb', BitVec.getLsbD_append, BitVec.getLsbD_append]
    simp
  have bit : @unpackSign .binary64 (parts exponent mantissa) = 0#1 := by
    apply BitVec.eq_of_toNat_eq
    simpa [unpackSign] using congrArg BitVec.toNat sign
  rw [Sign.ofBitVec, if_pos bit]

theorem toNat_normal (mantissa : BitVec 52) :
    (1#1 ++ mantissa).toNat = 2 ^ 52 + mantissa.toNat := by
  rw [BitVec.toNat_append]
  exact (Nat.shiftLeft_add_eq_or_of_lt mantissa.isLt 1).symm

theorem toNat_parts (exponent : BitVec 11) (mantissa : BitVec 52) :
    (parts exponent mantissa).toNat = exponent.toNat * 2 ^ 52 + mantissa.toNat := by
  change (0#1 ++ exponent ++ mantissa : BitVec (1 + 11 + 52)).toNat = _
  rw [BitVec.toNat_append, ← Nat.shiftLeft_add_eq_or_of_lt mantissa.isLt, Nat.shiftLeft_eq,
    BitVec.toNat_append]
  simp

theorem compare_finite {m₁ m₂ : Nat} {e₁ e₂ : Int} :
    (compare e₁ e₂).then (compare m₁ m₂) = .eq ↔ e₁ = e₂ ∧ m₁ = m₂ := by
  rw [Ordering.then_eq_eq, Std.compare_eq_iff_eq, Std.compare_eq_iff_eq]

/-- What a double with these parts is: infinite, zero, or finite and subnormal or normal. -/
theorem unpack_parts {exponent : BitVec 11} {mantissa : BitVec 52}
    (number : exponent = -1#11 → mantissa = 0#52) :
    let u := UnpackedFloat.unpack .binary64 (parts exponent mantissa)
    exponent = -1#11 ∧ mantissa = 0#52 ∧ u = .infinity .positive
      ∨ exponent = 0#11 ∧ mantissa = 0#52 ∧ u = .zero .positive
      ∨ exponent ≠ -1#11 ∧ ∃ n x h, u = .finite .positive n x h
        ∧ (exponent = 0#11 ∧ mantissa ≠ 0#52 ∧ n = mantissa.toNat ∧ x = -1074
          ∨ exponent ≠ 0#11 ∧ n = 2 ^ 52 + mantissa.toNat ∧ x = exponent.toNat - 1075) := by
  simp only [UnpackedFloat.unpack, unpackMantissa_packComponents, unpackExponent_packComponents,
    unpackSign_parts]
  by_cases top : exponent = -1#11
  · exact Or.inl ⟨top, number top, by rw [if_pos top, if_pos (number top)]⟩
  · rw [if_neg top]
    by_cases low : exponent = 0#11
    · rw [if_pos low]
      by_cases zero : mantissa = 0#52
      · exact Or.inr (Or.inl ⟨low, zero, by rw [dif_pos zero]⟩)
      · have pos : 0 < mantissa.toNat := BitVec.toNat_pos_of_ne_zero zero
        refine Or.inr (Or.inr ⟨top, _, _, pos, by rw [dif_neg zero], Or.inl ⟨low, zero, rfl, ?_⟩⟩)
        rw [low]
        rfl
    · rw [if_neg low]
      have pos : 0 < (1#1 ++ mantissa).toNat := by
        rw [toNat_normal]
        omega
      exact Or.inr (Or.inr ⟨top, _, _, pos, rfl, Or.inr ⟨low, toNat_normal mantissa, rfl⟩⟩)

theorem Positive.isNaN_eq_false {x : Float} (h : Positive x) : x.isNaN = false := by
  obtain ⟨exponent, mantissa, bits, number⟩ := h
  have packed : x.toModel.unpack = UnpackedFloat.unpack .binary64 (parts exponent mantissa) := by
    rw [← bits]
    rfl
  unfold Float.isNaN Float.Model.isNaN
  rw [packed]
  obtain ⟨-, -, u⟩ | ⟨-, -, u⟩ | ⟨-, n, e, pos, u, -⟩ := unpack_parts number <;> rw [u] <;> rfl

/-- Numbers with these parts are equal only if the parts are. -/
theorem compare_parts {e₁ e₂ : BitVec 11} {m₁ m₂ : BitVec 52} (number₁ : e₁ = -1#11 → m₁ = 0#52)
    (number₂ : e₂ = -1#11 → m₂ = 0#52) :
    (UnpackedFloat.unpack .binary64 (parts e₁ m₁)).compare
      (UnpackedFloat.unpack .binary64 (parts e₂ m₂)) = some .eq ↔ e₁ = e₂ ∧ m₁ = m₂ := by
  have b₁ := m₁.isLt
  have b₂ := m₂.isLt
  obtain ⟨rfl, rfl, u₁⟩ | ⟨rfl, rfl, u₁⟩ | ⟨top₁, n₁, x₁, h₁, u₁, f₁⟩ := unpack_parts number₁ <;>
  obtain ⟨rfl, rfl, u₂⟩ | ⟨rfl, rfl, u₂⟩ | ⟨top₂, n₂, x₂, h₂, u₂, f₂⟩ := unpack_parts number₂ <;>
  simp only [u₁, u₂]
  case inr.inr.inr.inr =>
    change some ((compare x₁ x₂).then (compare n₁ n₂)) = some .eq ↔ _
    rw [Option.some.injEq, compare_finite]
    obtain ⟨low₁, pos₁, rfl, rfl⟩ | ⟨high₁, rfl, rfl⟩ := f₁ <;>
    obtain ⟨low₂, pos₂, rfl, rfl⟩ | ⟨high₂, rfl, rfl⟩ := f₂
    all_goals
      constructor
      · rintro ⟨x, n⟩
        exact ⟨by bv_omega, by bv_omega⟩
      · rintro ⟨rfl, rfl⟩
        first | exact ⟨rfl, rfl⟩ | contradiction
  case inl.inl | inr.inl.inr.inl => exact iff_of_true rfl ⟨trivial, trivial⟩
  all_goals
    refine iff_of_false (by simp [UnpackedFloat.compare]) ?_
    grind

/-- Positive doubles are equal as numbers only if they are the same. -/
theorem beq_iff_of_positive {x y : Float} (hx : Positive x) (hy : Positive y) : x == y ↔ x = y := by
  obtain ⟨e₁, m₁, bits₁, number₁⟩ := hx
  obtain ⟨e₂, m₂, bits₂, number₂⟩ := hy
  have same : x == y ↔ e₁ = e₂ ∧ m₁ = m₂ := by
    rw [← compare_parts number₁ number₂, ← bits₁, ← bits₂]
    show (x.toModel.unpack.compare y.toModel.unpack == some .eq) = true ↔ _
    rw [beq_iff_eq]
    rfl
  rw [same]
  constructor
  · rintro ⟨rfl, rfl⟩
    obtain ⟨⟨bits, valid⟩⟩ := x
    obtain ⟨⟨bits', valid'⟩⟩ := y
    have : bits = bits' := UInt64.toBitVec_inj.mp (bits₁.trans bits₂.symm)
    subst this
    rfl
  · rintro rfl
    have := bits₁.symm.trans bits₂
    have exps := congrArg (@unpackExponent .binary64) this
    have mants := congrArg (@unpackMantissa .binary64) this
    simp only [unpackExponent_packComponents, unpackMantissa_packComponents] at exps mants
    exact ⟨exps, mants⟩

/-! ### Decimals without a sign -/

/-- Packing a number with a clear sign keeps it one. -/
theorem positive_pack {u : UnpackedFloat}
    (h : u = .infinity .positive ∨ u = .zero .positive ∨ ∃ n x pos, u = .finite .positive n x pos) :
    Positive (.ofModel (Float.Model.pack u)) := by
  unfold Positive
  obtain rfl | rfl | ⟨n, x, pos, rfl⟩ := h
  · exact ⟨_, _, rfl, fun _ => rfl⟩
  · exact ⟨_, _, rfl, fun _ => rfl⟩
  · simp only [Float.Model.pack, UnpackedFloat.pack]
    split
    · exact ⟨_, _, rfl, fun _ => rfl⟩
    · split
      · rename_i fits _
        refine ⟨_, _, rfl, fun top => ?_⟩
        exfalso
        rw [← BitVec.toNat_inj, BitVec.toNat_ofNat] at top
        generalize (x + (Format.exponentBias .binary64 : Nat) + (52 : Nat)).toNat = biased at *
        change biased % 2 ^ 11 = 2047 at top
        change ¬ 2 ^ 11 ≤ biased + 1 at fits
        omega
      · exact ⟨_, _, rfl, fun top => by cases top⟩

/-- Bits up to those of infinity are those of a positive double. -/
theorem positive_ofBits {n : Nat} (h : n ≤ 2047 * 2 ^ 52) :
    Positive (Float.ofBits (UInt64.ofNat n)) := by
  have split : (UInt64.ofNat n).toBitVec
      = parts (BitVec.ofNat 11 (n / 2 ^ 52)) (BitVec.ofNat 52 (n % 2 ^ 52)) := by
    apply BitVec.eq_of_toNat_eq
    rw [toNat_parts]
    simp
    omega
  unfold Float.ofBits Float.Model.ofBits
  rw [split]
  have number : BitVec.ofNat 11 (n / 2 ^ 52) = -1#11 → BitVec.ofNat 52 (n % 2 ^ 52) = 0#52 := by
    intro top
    have high : n / 2 ^ 52 % 2 ^ 11 = 2047 := by simpa using congrArg BitVec.toNat top
    have low : n % 2 ^ 52 = 0 := by omega
    rw [low]
  obtain ⟨-, -, u⟩ | ⟨-, -, u⟩ | ⟨-, m, x, pos, u, -⟩ := unpack_parts number <;> rw [u]
  · exact positive_pack (Or.inl rfl)
  · exact positive_pack (Or.inr (Or.inl rfl))
  · exact positive_pack (Or.inr (Or.inr ⟨m, x, pos, rfl⟩))

theorem positive_nearestQuotient (numerator denominator : Nat) :
    Positive (nearestQuotient numerator denominator) :=
  positive_ofBits (Nat.min_le_right _ _)

theorem positive_nearest (coefficient : Nat) (scale : Int) :
    Positive (nearest coefficient scale) := by
  simp only [nearest]
  split
  · exact ⟨0, 0, by decide +kernel, by decide⟩
  · split
    · exact ⟨-1, 0, by decide +kernel, fun _ => rfl⟩
    · exact positive_nearestQuotient ..

end TablePlan.Decimal
