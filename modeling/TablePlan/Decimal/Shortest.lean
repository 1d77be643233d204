import TablePlan.Decimal.Binary

/-!
# The shortest decimal that reads back

A double stands for the interval of reals that round to it; the ends belong to it when its
mantissa is even. On each grid of decimals with one, two, … up to seventeen digits only the two
neighbours of the value can be closest, so these are tested, and the first grid on which one of
them lies in the interval gives the digits. All comparisons are between natural numbers.
-/

namespace TablePlan.Decimal

/-- The decimal `coefficient * 10 ^ scale`. -/
structure Digits where
  coefficient : Nat
  scale : Int

/-- Which of two equally near decimals is taken. -/
inductive Tie
  | up
  | even

/-- How many decimal digits `n` has. -/
def digitCount (n : Nat) : Nat :=
  (Nat.toDigits 10 n).length

/-- The largest `e` with `10 ^ e ≤ mantissa * 2 ^ exponent`, for a mantissa that is not zero. -/
def magnitude (mantissa : Nat) (exponent : Int) : Int :=
  let numerator := mantissa * Nat.pow 2 exponent.toNat
  let denominator := Nat.pow 2 (-exponent).toNat
  if denominator ≤ numerator then digitCount (numerator / denominator) - 1
  else
    let gap := digitCount denominator - digitCount numerator
    if denominator ≤ numerator * Nat.pow 10 gap then -gap else -(gap + 1)

/-- The decimal on the grid of multiples of `10 ^ scale` that lies in the interval of the double
and is nearest to it, if there is one. -/
def nearestOn (tie : Tie) (mantissa : Nat) (exponent scale : Int) : Option Digits :=
  let narrow := mantissa == Nat.pow 2 52 && decide (-1074 < exponent)
  let valueUnit := Nat.pow 2 (exponent - 2).toNat * Nat.pow 10 (-scale).toNat
  let gridUnit := Nat.pow 2 (2 - exponent).toNat * Nat.pow 10 scale.toNat
  let value := 4 * mantissa * valueUnit
  let lower := (4 * mantissa - if narrow then 1 else 2) * valueUnit
  let upper := (4 * mantissa + 2) * valueUnit
  let closed := mantissa % 2 == 0
  let inside (d : Nat) : Bool :=
    let point := d * gridUnit
    if closed then decide (lower ≤ point) && decide (point ≤ upper)
    else decide (lower < point) && decide (point < upper)
  let below := value / gridUnit
  let doubled := 2 * value
  let middle := (2 * below + 1) * gridUnit
  let preferAbove :=
    decide (middle < doubled) ||
      (doubled == middle && match tie with
        | .up => true
        | .even => below % 2 == 1)
  match inside below, inside (below + 1) with
  | false, false => none
  | true, false => some ⟨below, scale⟩
  | false, true => some ⟨below + 1, scale⟩
  | true, true => some ⟨if preferAbove then below + 1 else below, scale⟩

/-- The digits without zeros at the end, of which there are at most `fuel`. -/
def Digits.trim (d : Digits) : Nat → Digits
  | 0 => d
  | fuel + 1 =>
    if d.coefficient % 10 = 0 then Digits.trim ⟨d.coefficient / 10, d.scale + 1⟩ fuel else d

/-- The shortest decimal that reads back as `mantissa * 2 ^ exponent`. -/
def shortest (tie : Tie) (mantissa : Nat) (exponent : Int) : Digits :=
  let top := magnitude mantissa exponent
  let found := (List.range 17).findSome? fun i : Nat => nearestOn tie mantissa exponent (top - i)
  match found with
  | some d => d.trim (digitCount d.coefficient - 1)
  | none =>
    ⟨mantissa * Nat.pow 2 exponent.toNat * Nat.pow 5 (-exponent).toNat, -((-exponent).toNat : Int)⟩

end TablePlan.Decimal
