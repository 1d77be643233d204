/-!
# The exact value of a double

A finite double is an integer times a power of two. Whole parts and remainders are computed on
that form, so they carry no rounding of their own.
-/

namespace TablePlan.Decimal

/-- A finite double: `mantissa * 2 ^ exponent`, with a sign that a zero has too. -/
structure Binary where
  negative : Bool
  mantissa : Nat
  exponent : Int

namespace Binary

/-- The exact value of a double, if it is finite. -/
def ofFloat? (x : Float) : Option Binary :=
  let bits := x.toBits.toNat
  let biased : Nat := bits / Nat.pow 2 52 % Nat.pow 2 11
  let fraction : Nat := bits % Nat.pow 2 52
  let negative := bits / Nat.pow 2 63 == 1
  if biased = 2047 then none
  else if biased = 0 then some ⟨negative, fraction, -1074⟩
  else some ⟨negative, fraction + Nat.pow 2 52, (biased : Int) - 1075⟩

/-- The double with this value, which has to be one that a double can hold. -/
def toFloat (b : Binary) : Float :=
  let sign := if b.negative then Nat.pow 2 63 else 0
  if b.mantissa = 0 then Float.ofBits (UInt64.ofNat sign)
  else
    let shift := min (52 - b.mantissa.log2) (b.exponent + 1074).toNat
    let mantissa := b.mantissa * Nat.pow 2 shift
    let biased := if mantissa < Nat.pow 2 52 then 0 else (b.exponent - shift + 1075).toNat
    Float.ofBits (UInt64.ofNat (sign + biased * Nat.pow 2 52 + mantissa % Nat.pow 2 52))

/-- Whether the value has no fractional part. -/
def isWhole (b : Binary) : Bool :=
  b.mantissa % Nat.pow 2 (-b.exponent).toNat == 0

/-- The value without its fractional part. -/
def truncate (b : Binary) : Int :=
  let size := b.mantissa * Nat.pow 2 b.exponent.toNat / Nat.pow 2 (-b.exponent).toNat
  if b.negative then -(size : Int) else size

/-- What is left of `a` after taking away as many `b` as fit, with the sign of `a`. -/
def remainder (a b : Binary) : Binary :=
  let exponent := min a.exponent b.exponent
  let scaled (x : Binary) : Nat := x.mantissa * Nat.pow 2 (x.exponent - exponent).toNat
  ⟨a.negative, scaled a % scaled b, exponent⟩

end Binary

/-- The remainder of a division rounded toward zero; it has the sign of the dividend. -/
def remainder (a b : Float) : Float :=
  match Binary.ofFloat? a, Binary.ofFloat? b with
  | some x, some y => if y.mantissa = 0 then 0.0 / 0.0 else (x.remainder y).toFloat
  | some _, none => if b.isNaN then b else a
  | none, _ => 0.0 / 0.0

/-- The double nearest to an integer. -/
def ofInt64 (i : Int64) : Float :=
  if i < 0 then -(UInt64.ofNat i.toInt.natAbs).toFloat else (UInt64.ofNat i.toInt.natAbs).toFloat

end TablePlan.Decimal
