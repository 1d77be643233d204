import TablePlan.Proofs.Decimal.Literal

/-!
# Finite doubles

A double is finite if it has parts.
-/

namespace TablePlan.Decimal

open Float.Model Float.Model.UnpackedFloat

theorem toNat_unpackExponent (bits : BitVec 64) :
    (@unpackExponent .binary64 bits).toNat = bits.toNat / 2 ^ 52 % 2 ^ 11 := by
  simp [unpackExponent, Nat.shiftRight_eq_div_pow]

/-- A double is finite if it has parts. -/
theorem isFinite_iff {x : Float} : x.isFinite ↔ ∃ b, Binary.ofFloat? x = some b := by
  have top : @unpackExponent .binary64 x.toBits.toBitVec = -1#11
      ↔ x.toBits.toNat / 2 ^ 52 % 2 ^ 11 = 2047 := by
    rw [← BitVec.toNat_inj, toNat_unpackExponent]
    rfl
  have finite : x.isFinite = true ↔ ¬ x.toBits.toNat / 2 ^ 52 % 2 ^ 11 = 2047 := by
    rw [← top]
    change (UnpackedFloat.unpack .binary64 x.toBits.toBitVec).isFinite = true ↔ _
    unfold UnpackedFloat.unpack
    dsimp only
    split
    · rename_i infinite
      refine iff_of_false ?_ (not_not.mpr infinite)
      split <;> exact Bool.false_ne_true
    · rename_i small
      refine iff_of_true ?_ small
      split
      · split <;> rfl
      · rfl
  rw [finite]
  unfold Binary.ofFloat?
  simp only [Nat.pow_eq]
  split
  · simp [*]
  · split <;> simp [*]

end TablePlan.Decimal
