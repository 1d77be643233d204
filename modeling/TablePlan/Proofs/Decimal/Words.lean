import TablePlan.Proofs.Decimal.Finite

/-!
# Large words as doubles

A word with its highest bit set has eleven bits more than a double has room for. The double it is
converted to is the one nearest to it, the one with the even mantissa if two are as near.
-/

namespace TablePlan.Decimal

open Float.Model Float.Model.UnpackedFloat

/-- A packed double with all bits of its mantissa has the parts that were packed. -/
theorem ofFloat_pack {m : Nat} {e : Int} (pos : 0 < m) (low : 2 ^ 52 ≤ m) (high : m < 2 ^ 53)
    (least : -1074 ≤ e) (greatest : e ≤ 971) :
    Binary.ofFloat? (.ofModel (pack (.finite .positive m e pos))) = some ⟨false, m, e⟩ := by
  obtain ⟨biased, shifted⟩ : ∃ biased : Nat, e + 1075 = biased := ⟨(e + 1075).toNat, by omega⟩
  have width : m.log2 = 52 := (Nat.log2_eq_iff pos.ne').mpr ⟨low, high⟩
  have packed : UnpackedFloat.pack .binary64 (.finite .positive m e pos)
      = packComponents .binary64 .positive (BitVec.ofNat 11 biased) (BitVec.ofNat 52 m) := by
    have exponent : (e + (Format.binary64.exponentBias : Nat) + (52 : Nat)).toNat = biased := by
      change (e + (1023 : Nat) + (52 : Nat)).toNat = biased
      omega
    have finite : ¬ 2 ^ Format.binary64.exponentBits ≤ biased + 1 := by
      change ¬ 2 ^ 11 ≤ biased + 1
      omega
    have normal : 52 + 1 = Format.binary64.mantissaBits := rfl
    rw [UnpackedFloat.pack]
    dsimp only
    rw [exponent, width, if_neg finite, if_pos normal]
  have bits : (Float.ofModel (pack (.finite .positive m e pos))).toBits.toNat
      = biased * 2 ^ 52 + (m - 2 ^ 52) := by
    change (UnpackedFloat.pack .binary64 (.finite .positive m e pos)).toNat = _
    have fraction : m % 2 ^ 52 = m - 2 ^ 52 := by omega
    rw [packed, packComponents, BitVec.toNat_append, BitVec.toNat_append,
      ← Nat.shiftLeft_add_eq_or_of_lt (BitVec.isLt _), Nat.shiftLeft_eq, BitVec.toNat_ofNat,
      BitVec.toNat_ofNat, fraction, Nat.mod_eq_of_lt (by omega : biased < 2 ^ 11)]
    simp [Sign.toBitVec]
  unfold Binary.ofFloat?
  simp only [bits, Nat.pow_eq]
  have exponent : (biased * 2 ^ 52 + (m - 2 ^ 52)) / 2 ^ 52 % 2 ^ 11 = biased := by omega
  rw [exponent, if_neg (by omega), if_neg (by omega)]
  have sign : (biased * 2 ^ 52 + (m - 2 ^ 52)) / 2 ^ 63 = 0 := by omega
  have mantissa : (biased * 2 ^ 52 + (m - 2 ^ 52)) % 2 ^ 52 + 2 ^ 52 = m := by omega
  have back : (biased : Int) - 1075 = e := by omega
  rw [sign, mantissa, back]
  rfl

/-- A whole number shifted to the right, with the highest bit that is lost and whether there is
anything below that. -/
theorem shiftRight_extended (n k : Nat) : (⟨n, false, false⟩ : ExtendedMantissa) >>> (k + 1)
    = ⟨n / 2 ^ (k + 1), n / 2 ^ k % 2 != 0, n % 2 ^ k != 0⟩ := by
  change Nat.repeat _ (k + 1) _ = _
  induction k with
  | zero => simp [Nat.repeat, ExtendedMantissa.shiftRightOne, Nat.mod_one]
  | succ k ih =>
      have lost : n % 2 ^ (k + 1) = n % 2 ^ k + 2 ^ k * (n / 2 ^ k % 2) := Nat.mod_pow_succ
      have sticky : (n / 2 ^ k % 2 != 0 || n % 2 ^ k != 0) = (n % 2 ^ (k + 1) != 0) := by
        have unit : 0 < 2 ^ k := Nat.two_pow_pos k
        rw [lost, Bool.eq_iff_iff]
        simp
        omega
      rw [Nat.repeat, ih, ExtendedMantissa.shiftRightOne, sticky, Nat.div_div_eq_div_mul,
        ← Nat.pow_succ]

/-- The units of `2 ^ 11` in a number, rounded to the nearest whole, in the middle to an even one. -/
def wordUnits (n : Nat) : Nat :=
  n / 2 ^ 11 + if 2 ^ 10 < n % 2 ^ 11 then 1 else if n % 2 ^ 11 = 2 ^ 10 then n / 2 ^ 11 % 2 else 0

theorem wordUnits_near (n : Nat) :
    2 ^ 11 * wordUnits n ≤ n + 2 ^ 10 ∧ n ≤ 2 ^ 11 * wordUnits n + 2 ^ 10
      ∧ (wordUnits n % 2 = 1 →
        2 ^ 11 * wordUnits n < n + 2 ^ 10 ∧ n < 2 ^ 11 * wordUnits n + 2 ^ 10) := by
  unfold wordUnits
  split
  · omega
  · split <;> omega

theorem roundedMantissa_word (n : Nat) :
    ((⟨n, false, false⟩ : ExtendedMantissa) >>> 11).roundedMantissa = wordUnits n := by
  have half : n % 2 ^ 11 = n % 2 ^ 10 + 2 ^ 10 * (n / 2 ^ 10 % 2) := Nat.mod_pow_succ
  rw [shiftRight_extended, wordUnits]
  cases low : n / 2 ^ 10 % 2 != 0 <;> cases sticky : n % 2 ^ 10 != 0 <;>
    simp only [bne_eq_false_iff_eq, bne_iff_ne] at low sticky <;>
    simp only [ExtendedMantissa.roundedMantissa, ExtendedMantissa.accuracy,
      Accuracy.roundToNearestEven] <;>
    (repeat' split) <;> omega

theorem wordUnits_bounds {n : Nat} (low : 2 ^ 63 ≤ n) (high : n < 2 ^ 64) :
    2 ^ 52 ≤ wordUnits n ∧ wordUnits n ≤ 2 ^ 53 := by
  obtain ⟨above, below, -⟩ := wordUnits_near n
  omega

theorem shift_word {n : Nat} (low : 2 ^ 63 ≤ n) (high : n < 2 ^ 64) :
    shiftToTargetExponent .binary64 n 0 .exact
      = ((⟨n, false, false⟩ : ExtendedMantissa) >>> 11, 11) := by
  have width : n.log2 = 63 := (Nat.log2_eq_iff (by omega)).mpr ⟨low, high⟩
  rw [shiftToTargetExponent, totalExponent, width]
  rfl

/-- Rounding up can make a number longer by one bit. -/
theorem shift_wordUnits {m : Nat} (low : 2 ^ 52 ≤ m) (high : m ≤ 2 ^ 53) :
    ∃ em, shiftToTargetExponent .binary64 m 11 .exact = (em, if m = 2 ^ 53 then 12 else 11)
      ∧ em.mantissa = if m = 2 ^ 53 then 2 ^ 52 else m := by
  by_cases longer : m = 2 ^ 53
  · subst longer
    exact ⟨_, rfl, rfl⟩
  · have width : m.log2 = 52 := (Nat.log2_eq_iff (by omega)).mpr ⟨low, by omega⟩
    rw [if_neg longer, if_neg longer, shiftToTargetExponent, totalExponent, width]
    exact ⟨⟨m, false, false⟩, rfl, rfl⟩

/-- The double that a word with its highest bit set is rounded to. -/
def ofWord (n : Nat) : Binary :=
  if wordUnits n = 2 ^ 53 then ⟨false, 2 ^ 52, 12⟩ else ⟨false, wordUnits n, 11⟩

theorem round_word {n : Nat} (low : 2 ^ 63 ≤ n) (high : n < 2 ^ 64) :
    ∃ pos, UnpackedFloat.ofNat .binary64 n
      = .finite .positive (ofWord n).mantissa (ofWord n).exponent pos := by
  have width : n.log2 = 63 := (Nat.log2_eq_iff (by omega)).mpr ⟨low, high⟩
  have target : Format.binary64.targetExponent (totalExponent n 0) = 11 := by
    rw [totalExponent, width]
    rfl
  have positive : compare (n : Int) 0 = .gt := compare_gt_iff_gt.mpr (by omega)
  obtain ⟨least, greatest⟩ := wordUnits_bounds low high
  obtain ⟨em, again, mantissa⟩ := shift_wordUnits least greatest
  have parts : ofWord n = ⟨false, em.mantissa, if wordUnits n = 2 ^ 53 then 12 else 11⟩ := by
    rw [ofWord, mantissa]
    split <;> rfl
  have pos : 0 < em.mantissa := by
    rw [mantissa]
    split <;> omega
  have kept : decreaseExponent n 0 11 = (n, 0) := rfl
  rw [UnpackedFloat.ofNat, UnpackedFloat.ofInt, UnpackedFloat.normalize, positive]
  dsimp only
  rw [Int.toNat_natCast, UnpackedFloat.round, target]
  dsimp only
  rw [kept, roundWithAccuracy, shift_word low high]
  dsimp only
  rw [roundedMantissa_word]
  simp only [again, parts]
  exact ⟨pos, dif_neg pos.ne'⟩

/-- What is known of the double without the word. -/
theorem ofWord_bounds {n : Nat} (low : 2 ^ 63 ≤ n) (high : n < 2 ^ 64) :
    (ofWord n).negative = false ∧ 2 ^ 52 ≤ (ofWord n).mantissa ∧ (ofWord n).mantissa < 2 ^ 53
      ∧ 11 ≤ (ofWord n).exponent ∧ (ofWord n).exponent ≤ 12 := by
  obtain ⟨least, greatest⟩ := wordUnits_bounds low high
  rw [ofWord]
  split <;> refine ⟨rfl, ?_⟩ <;> dsimp only <;> omega

/-- A word with its highest bit set is a finite double. -/
theorem ofFloat_word {n : Nat} (low : 2 ^ 63 ≤ n) (high : n < 2 ^ 64) :
    Binary.ofFloat? (UInt64.ofNat n).toFloat = some (ofWord n) := by
  obtain ⟨pos, rounded⟩ := round_word low high
  obtain ⟨positive, least, greatest, lowest, highest⟩ := ofWord_bounds low high
  have packed : (UInt64.ofNat n).toFloat = .ofModel (pack (.finite .positive (ofWord n).mantissa
      (ofWord n).exponent pos)) := by
    change Float.ofModel (pack (UnpackedFloat.ofNat .binary64 (UInt64.ofNat n).toNat)) = _
    rw [UInt64.toNat_ofNat_of_lt' high, rounded]
  rw [packed, ofFloat_pack pos least greatest (by omega) (by omega), ← positive]

/-- Whole numbers in the interval of a double. -/
theorem rounds_of_whole {m k n : Nat} {e : Int} (unit : e - 2 = k)
    (lower : (4 * m - gap m e) * 2 ^ k ≤ n) (upper : n ≤ (4 * m + 2) * 2 ^ k)
    (strict : m % 2 = 1 → (4 * m - gap m e) * 2 ^ k < n ∧ n < (4 * m + 2) * 2 ^ k) :
    Rounds m e n := by
  have scaled (a : Nat) : (a : ℚ) * 2 ^ (e - 2) = (a * 2 ^ k : Nat) := by
    rw [unit, zpow_natCast]
    push_cast
    rfl
  refine ⟨?_, ?_, fun odd => ⟨?_, ?_⟩⟩ <;> rw [scaled]
  · exact Nat.cast_le.mpr lower
  · exact Nat.cast_le.mpr upper
  · exact Nat.cast_lt.mpr (strict odd).1
  · exact Nat.cast_lt.mpr (strict odd).2

/-- No double is nearer to the word, and of two that are as near it is the even one. -/
theorem rounds_word {n : Nat} (low : 2 ^ 63 ≤ n) (high : n < 2 ^ 64) :
    Rounds (ofWord n).mantissa (ofWord n).exponent n := by
  obtain ⟨above, below, strict⟩ := wordUnits_near n
  rw [ofWord]
  split
  · rename_i longer
    have narrow : gap (2 ^ 52) 12 = 1 := rfl
    have even : (2 ^ 52) % 2 = 1 → False := by decide
    refine rounds_of_whole (k := 10) rfl ?_ ?_ fun odd => (even odd).elim
    · dsimp only
      rw [narrow]
      omega
    · dsimp only
      omega
  · have narrow : gap (wordUnits n) 11 = 1 → wordUnits n = 2 ^ 52 := by
      simp [gap]
    have wide := gap_bounds (wordUnits n) 11
    refine rounds_of_whole (k := 9) rfl ?_ ?_ fun odd => ?_
    · dsimp only
      omega
    · dsimp only
      omega
    · have apart := strict odd
      dsimp only
      omega

/-- The double is not negative, and no other one is nearer to the number. -/
def Nearest (x : Float) (i : Int) : Prop :=
  ∃ b, Binary.ofFloat? x = some b ∧ b.negative = false ∧ Rounds b.mantissa b.exponent i

end TablePlan.Decimal
