/-!
# Reading decimals

The double nearest to a decimal. Decimals beyond the range of doubles are settled by their size
alone, so the work never depends on how large an exponent is written.
-/

namespace TablePlan.Decimal

/-- The value of decimal digits. -/
def natOfDigits (digits : List Char) : Nat :=
  digits.foldl (fun n c => 10 * n + (c.toNat - '0'.toNat)) 0

/-- The double nearest to a quotient of positive numbers, the even one of two that are equally
near. What is too large for a double is infinite. -/
def nearestQuotient (numerator denominator : Nat) : Float :=
  let size : Int := numerator.log2 - denominator.log2
  let isBelow := decide
    (numerator * Nat.pow 2 (-size).toNat < denominator * Nat.pow 2 size.toNat)
  let exponent := max (-1074) ((if isBelow then size - 1 else size) - 52)
  let dividend := numerator * Nat.pow 2 (-exponent).toNat
  let divisor := denominator * Nat.pow 2 exponent.toNat
  let below := dividend / divisor
  let doubled := 2 * (dividend % divisor)
  let isAbove := decide (divisor < doubled) || (doubled == divisor && below % 2 == 1)
  let bits := (exponent + 1074).toNat * Nat.pow 2 52 + if isAbove then below + 1 else below
  Float.ofBits (UInt64.ofNat (min bits (2047 * Nat.pow 2 52)))

/-- The double nearest to `coefficient * 10 ^ scale`. -/
def nearest (coefficient : Nat) (scale : Int) : Float :=
  let size := (Nat.toDigits 10 coefficient).length + scale
  if coefficient = 0 || decide (size < -330) then 0.0
  else if 330 < size then 1.0 / 0.0
  else nearestQuotient (coefficient * Nat.pow 10 scale.toNat) (Nat.pow 10 (-scale).toNat)

/-- The leading digits and the characters after them. -/
def spanDigits (cs : List Char) : List Char × List Char :=
  cs.span Char.isDigit

/-- An exponent part: its value and the characters after it, if it is complete. -/
def exponentPart? : List Char → Option (Int × List Char)
  | 'e' :: rest | 'E' :: rest =>
    let (negative, rest) := match rest with
      | '-' :: rest => (true, rest)
      | '+' :: rest => (false, rest)
      | _ => (false, rest)
    match spanDigits rest with
    | ([], _) => none
    | (digits, rest) =>
      let size := natOfDigits digits
      some (if negative then -size else size, rest)
  | _ => none

/-- The double that a whole text stands for, if it is a decimal, `inf` or `NaN`, signed or not. -/
def ofText? (text : String) : Option Float :=
  match text.toList with
  | '-' :: rest => (unsigned? rest).map fun x => -x
  | '+' :: rest => unsigned? rest
  | rest => unsigned? rest
where
  /-- A decimal without a sign, `inf` or `NaN`. -/
  unsigned? (cs : List Char) : Option Float :=
    if cs = ['i', 'n', 'f'] then some (1.0 / 0.0)
    else if cs = ['N', 'a', 'N'] then some (0.0 / 0.0)
    else
      let (whole, rest) := spanDigits cs
      let (fraction, rest) := match rest with
        | '.' :: rest => spanDigits rest
        | _ => ([], rest)
      if whole.isEmpty && fraction.isEmpty then none
      else
        let value (exponent : Int) : Float :=
          nearest (natOfDigits (whole ++ fraction)) (exponent - fraction.length)
        match rest with
        | [] => some (value 0)
        | _ =>
          match exponentPart? rest with
          | some (exponent, []) => some (value exponent)
          | _ => none

end TablePlan.Decimal
