import Mathlib.Algebra.Order.Ring.Int
import Mathlib.Algebra.Ring.Parity
import TablePlan.Proofs.Eval.Stepping

/-!
# Arithmetic on integers

Sums, differences, products, remainders, powers and negations of integers are computed exactly or
refused: no result wraps around. There are two exceptions. The remainder of the least integer by -1
is refused though it is zero, and a power leaves the integers if its exponent does not fit 32 bits.
-/

namespace TablePlan

namespace Eval

variable {σ : Type}

/-- The result is the integer itself where a word holds it, and an error of arithmetic where none
does. -/
structure Exact (i : Int) (result : Except EvalError Value) : Prop where
  held : ∀ x : Int64, x.toInt = i → result = .ok (.int x)
  refused : (∀ x : Int64, x.toInt ≠ i) → ∃ reason, result = .error (.arithmetic reason)

/-- The integers that a word holds are those in its range. -/
theorem exists_toInt_eq_iff {i : Int} :
    (∃ x : Int64, x.toInt = i) ↔ Int64.minValue.toInt ≤ i ∧ i ≤ Int64.maxValue.toInt := by
  constructor
  · rintro ⟨x, rfl⟩
    exact ⟨Int64.minValue_le_toInt x, Int64.toInt_le x⟩
  · rintro ⟨least, most⟩
    exact ⟨Int64.ofInt i, Int64.toInt_ofInt_of_le least (Int.lt_add_one_of_le most)⟩

theorem exact_of_range {i : Int} (least : Int64.minValue.toInt ≤ i)
    (most : i ≤ Int64.maxValue.toInt) : Exact i (.ok (.int (Int64.ofInt i))) := by
  refine ⟨?_, fun none => ?_⟩
  · rintro x rfl
    rw [Int64.ofInt_toInt]
  · obtain ⟨x, is⟩ := exists_toInt_eq_iff.mpr ⟨least, most⟩
    exact absurd is (none x)

theorem exact_fitting (i : Int) : Exact i (fitting i) := by
  unfold fitting
  split
  · rename_i range
    exact exact_of_range range.1 range.2
  · rename_i outside
    exact ⟨fun x is => absurd (exists_toInt_eq_iff.mp ⟨x, is⟩) outside, fun _ => ⟨_, rfl⟩⟩

/-! ### Powers -/

/-- The powers of a base that is too small to grow depend on whether the exponent is even. -/
theorem pow_of_natAbs_le_one {base : Int} (small : base.natAbs ≤ 1) {exponent : Nat}
    (positive : exponent ≠ 0) : base ^ (2 - exponent % 2) = base ^ exponent := by
  have sizes : base = 0 ∨ base = 1 ∨ base = -1 := by omega
  obtain rfl | rfl | rfl := sizes
  · rw [zero_pow positive, zero_pow (by omega)]
  · rw [one_pow, one_pow]
  · rw [neg_one_pow_eq_pow_mod_two, neg_one_pow_eq_pow_mod_two (n := exponent)]
    congr 1
    omega

/-- Any other base has grown out of range by its 64th power. -/
theorem pow_out_of_range {base : Int} (large : 1 < base.natAbs) {exponent : Nat}
    (wide : 64 ≤ exponent) :
    ¬ (Int64.minValue.toInt ≤ base ^ exponent ∧ base ^ exponent ≤ Int64.maxValue.toInt) := by
  have grown : 2 ^ 64 ≤ (base ^ exponent).natAbs := by
    rw [Int.natAbs_pow]
    calc 2 ^ 64 ≤ 2 ^ exponent := Nat.pow_le_pow_right (by decide) wide
      _ ≤ base.natAbs ^ exponent := Nat.pow_le_pow_left large exponent
  have least : Int64.minValue.toInt = -2 ^ 63 := rfl
  have most : Int64.maxValue.toInt = 2 ^ 63 - 1 := rfl
  omega

/-- The shortcuts that a power takes make no difference. -/
theorem intPower_eq (base : Int) (exponent : Nat) :
    intPower base exponent = fitting (base ^ exponent) := by
  unfold intPower
  split
  · rename_i small
    split
    · rename_i none
      rw [none]
      rfl
    · rename_i positive
      exact congrArg fitting (pow_of_natAbs_le_one small positive)
  · rename_i large
    split
    · rename_i wide
      rw [fitting, if_neg (pow_out_of_range (by omega) wide)]
    · rfl

/-! ### Operators -/

/-- A remainder that is not of the least integer by -1 is held by a word, like the divisor. -/
theorem exact_remainder {a b : Int64} (divisor : b ≠ 0)
    (proper : ¬ (a = Int64.minValue ∧ b = -1)) :
    Exact (a.toInt.tmod b.toInt) (intArithmetic .rem a b) := by
  rw [intArithmetic, if_neg divisor, if_neg proper]
  have nonzero : b.toInt ≠ 0 := fun is => divisor (Int64.toInt_inj.mp is)
  have smaller : (a.toInt.tmod b.toInt).natAbs < b.toInt.natAbs := by
    rw [Int.natAbs_tmod]
    exact Nat.mod_lt _ (by omega)
  have least := Int64.minValue_le_toInt b
  have most := Int64.toInt_le b
  have bounds : Int64.minValue.toInt = -2 ^ 63 ∧ Int64.maxValue.toInt = 2 ^ 63 - 1 := ⟨rfl, rfl⟩
  exact exact_of_range (by omega) (by omega)

theorem exact_power {a b : Int64} (least : 0 ≤ b.toInt) (narrow : b.toInt < UInt32.size) :
    Exact (a.toInt ^ b.toInt.toNat) (intArithmetic .pow a b) := by
  rw [intArithmetic, if_pos ⟨least, narrow⟩, intPower_eq]
  exact exact_fitting _

/-! ### Evaluation -/

section

variable {registry : Registry σ} {setting : Setting} {left right : Expr} {m m₁ m₂ : Machine σ}
variable {a b : Int64}

/-- Between integers it makes no difference whether an operator of arithmetic is applied element by
element. -/
theorem eval_binary_of_ints (first : eval registry setting left m = (.ok (.int a), m₁))
    (second : eval registry setting right m₁ = (.ok (.int b), m₂)) (dotted : Bool) {op : BinaryOp}
    (arithmetic : op ∈ [.add, .sub, .mul, .rem, .pow]) :
    eval registry setting (.binary op left right dotted) m = (intArithmetic op a b, m₂) := by
  simp only [List.mem_cons, List.not_mem_nil, or_false] at arithmetic
  obtain rfl | rfl | rfl | rfl | rfl := arithmetic
  all_goals
    rw [eval_binary_of_ok (by simp) first second, operated_of_scalars _ _ rfl rfl]
    rfl

theorem eval_neg_of_int (first : eval registry setting left m = (.ok (.int a), m₁))
    (dotted : Bool) :
    eval registry setting (.unary .neg left dotted) m = (fitting (-a.toInt), m₁) := by
  have lifted : (liftM (fitting (-a.toInt)) : EvalM σ Value) m₁ = (fitting (-a.toInt), m₁) :=
    EvalM.Gives.lift _ _
  rw [eval, bind_of_ok first]
  cases dotted <;> exact lifted

/-- Where two operands are integers, their sum, difference and product and the negation of the first
are computed exactly or refused, with and without dots. So is the remainder, which has the sign of
the dividend, except that a divisor of zero is refused and that the least integer has no remainder
by -1. So is a power whose exponent is not negative, as long as the exponent fits 32 bits; beyond
that it is a float. -/
theorem integer_arithmetic (first : eval registry setting left m = (.ok (.int a), m₁))
    (second : eval registry setting right m₁ = (.ok (.int b), m₂)) (dotted : Bool) :
    ∃ (result : BinaryOp → Except EvalError Value) (negation : Except EvalError Value),
      (∀ op ∈ [.add, .sub, .mul, .rem, .pow],
        eval registry setting (.binary op left right dotted) m = (result op, m₂))
      ∧ eval registry setting (.unary .neg left dotted) m = (negation, m₁)
      ∧ Exact (a.toInt + b.toInt) (result .add)
      ∧ Exact (a.toInt - b.toInt) (result .sub)
      ∧ Exact (a.toInt * b.toInt) (result .mul)
      ∧ Exact (-a.toInt) negation
      ∧ (b ≠ 0 → ¬ (a = Int64.minValue ∧ b = -1) → Exact (a.toInt.tmod b.toInt) (result .rem))
      ∧ (b = 0 → result .rem = .error (.arithmetic "integer division by zero"))
      ∧ (a = Int64.minValue → b = -1 → result .rem = .error (.arithmetic "integer overflow"))
      ∧ (0 ≤ b.toInt → b.toInt < 2 ^ 32 → Exact (a.toInt ^ b.toInt.toNat) (result .pow))
      ∧ (2 ^ 32 ≤ b.toInt →
        result .pow = .ok (.float (Float.pow (Decimal.ofInt64 a) (Decimal.ofInt64 b)))) := by
  refine ⟨fun op => intArithmetic op a b, fitting (-a.toInt),
    fun op arithmetic => eval_binary_of_ints first second dotted arithmetic,
    eval_neg_of_int first dotted, exact_fitting _, exact_fitting _, exact_fitting _, exact_fitting _,
    exact_remainder, fun zero => if_pos zero, ?_, exact_power, fun wide => ?_⟩
  · rintro rfl rfl
    rfl
  · have outside : ¬ (0 ≤ b.toInt ∧ b.toInt < UInt32.size) := fun fits => absurd wide (not_le.mpr fits.2)
    exact if_neg outside

/-- Subtracting one from the least integer is refused, and so is its remainder by -1. -/
theorem least_integer_by_minus_one :
    let m : Machine Unit := ⟨.empty, ()⟩
    let least := Expr.literal (.int Int64.minValue)
    let minusOne := Expr.literal (.int (-1))
    let evaluated := eval (Registry.empty "1") .body
    evaluated least m = (.ok (.int Int64.minValue), m)
    ∧ evaluated minusOne m = (.ok (.int (-1)), m)
    ∧ (∃ reason, evaluated (.binary .add least minusOne false) m = (.error (.arithmetic reason), m))
    ∧ evaluated (.binary .mul minusOne minusOne false) m = (.ok (.int 1), m)
    ∧ evaluated (.binary .rem least minusOne false) m
      = (.error (.arithmetic "integer overflow"), m) := by
  intro m least minusOne evaluated
  have first : evaluated least m = (.ok (.int Int64.minValue), m) := rfl
  have second : evaluated minusOne m = (.ok (.int (-1)), m) := rfl
  obtain ⟨result, -, ran, -, sum, -, -, -, -, -, remainder, -, -⟩ :=
    integer_arithmetic first second false
  obtain ⟨result', -, ran', -, -, -, product, -⟩ := integer_arithmetic second second false
  have below (x : Int64) : x.toInt ≠ Int64.minValue.toInt + (-1 : Int64).toInt := by
    have bound := Int64.minValue_le_toInt x
    have unit : (-1 : Int64).toInt = -1 := rfl
    omega
  obtain ⟨reason, refused⟩ := sum.refused below
  refine ⟨first, second, ⟨reason, ?_⟩, ?_, ?_⟩
  · rw [← refused]
    exact ran .add (by simp)
  · rw [← product.held 1 rfl]
    exact ran' .mul (by simp)
  · rw [← remainder rfl rfl]
    exact ran .rem (by simp)

end

end Eval

end TablePlan
