import TablePlan.Decimal.Shortest

/-!
# The text of a double

Every text has the shortest digits that read back. A layout says which exponents are written in
positional notation and how the rest is spelled.
-/

namespace TablePlan.Decimal

/-- The choices that one format makes for its numbers. -/
structure Layout where
  /-- Where a value halfway between two shortest decimals goes. -/
  tie : Tie
  /-- Exponents of the leading digit that are written in positional notation. -/
  positional : Int → Bool
  /-- Whether a whole number in positional notation ends in `.0`. -/
  pointZero : Bool
  /-- Whether an exponent that is not negative has a plus sign. -/
  plus : Bool

namespace Layout

/-- Positional notation of digits whose last one stands for `10 ^ scale`. -/
def positionalText (pointZero : Bool) (digits : List Char) (scale : Int) : List Char :=
  let point := scale + digits.length
  if 0 ≤ scale then
    digits ++ List.replicate scale.toNat '0' ++ if pointZero then ['.', '0'] else []
  else if 0 < point then digits.take point.toNat ++ '.' :: digits.drop point.toNat
  else '0' :: '.' :: List.replicate (-point).toNat '0' ++ digits

/-- Scientific notation of digits whose first one stands for `10 ^ exponent`. -/
def scientificText (plus : Bool) (digits : List Char) (exponent : Int) : List Char :=
  let fraction := match digits.drop 1 with
    | [] => []
    | rest => '.' :: rest
  let sign := if exponent < 0 then ['-'] else if plus then ['+'] else []
  digits.take 1 ++ fraction ++ 'e' :: sign ++ Nat.toDigits 10 exponent.natAbs

/-- The text of a value that is not zero, without its sign. -/
def digitsText (layout : Layout) (d : Digits) : List Char :=
  let digits := Nat.toDigits 10 d.coefficient
  let exponent := d.scale + digits.length - 1
  if layout.positional exponent then positionalText layout.pointZero digits d.scale
  else scientificText layout.plus digits exponent

/-- The text of a double. -/
def text (layout : Layout) (x : Float) : String :=
  match Binary.ofFloat? x with
  | none => if x.isNaN then "NaN" else if x < 0.0 then "-inf" else "inf"
  | some b =>
    let sign := if b.negative then ['-'] else []
    let body :=
      if b.mantissa = 0 then if layout.pointZero then ['0', '.', '0'] else ['0']
      else layout.digitsText (shortest layout.tie b.mantissa b.exponent)
    String.ofList (sign ++ body)

end Layout

/-- Literals: positional from one ten-thousandth to below ten to the sixteenth, and always told
apart from an integer. -/
def literalLayout : Layout := ⟨.up, fun e => decide (-4 ≤ e) && decide (e < 16), true, false⟩

/-- Plain text: positional throughout, whole numbers as integers. -/
def plainLayout : Layout := ⟨.up, fun _ => true, false, false⟩

/-- Data exchange: positional from ten to the minus five to below ten to the sixteenth, with
signed exponents elsewhere. -/
def exchangeLayout : Layout := ⟨.even, fun e => decide (-5 ≤ e) && decide (e < 16), true, true⟩

end TablePlan.Decimal
