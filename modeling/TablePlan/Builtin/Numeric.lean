import TablePlan.Registry.Argument
import TablePlan.Value.Printer

/-!
# Functions of numbers

All of them pass the missing value through, except the one that makes a text of its arguments.
-/

namespace TablePlan.Builtin

open Value

/-- The absolute value. -/
def absolute : Value → Except FunctionError Value
  | int i => if i = Int64.minValue then .error (.stopped (.magnitude i)) else .ok (int i.abs)
  | other => return float (← other.expectNumber).abs

/-- A function that a negative number has no value of. -/
def nonNegative (name : String) (f : Float → Float) (v : Value) : Except FunctionError Value := do
  let x ← v.expectNumber
  if x < 0.0 then
    throw (.domain (name ++ " of negative number " ++ Decimal.plainLayout.text x))
  return float (f x)

/-- A way of rounding; integers are round already. -/
def rounding (f : Float → Float) : Value → Except FunctionError Value
  | int i => .ok (int i)
  | float x => .ok (float (f x))
  | other => .error (.mismatch "number" other)

/-- A number or a truth value as a float. -/
def toFloat : Value → Except FunctionError Value
  | .bool b => .ok (float (if b then 1.0 else 0.0))
  | other => return float (← other.expectNumber)

/-- The integer nearest to an exact one. -/
def clampInt (i : Int) : Int64 :=
  Int64.ofInt (max Int64.minValue.toInt (min Int64.maxValue.toInt i))

/-- A whole number or a truth value as an integer. -/
def toInteger : Value → Except FunctionError Value
  | int i => .ok (int i)
  | .bool b => .ok (int (if b then 1 else 0))
  | float x =>
    let refused : FunctionError :=
      .domain (Decimal.plainLayout.text x ++ " is not an exact integer")
    match Decimal.Binary.ofFloat? x with
    | some b => if b.isWhole then .ok (int (clampInt b.truncate)) else .error refused
    | none => .error refused
  | other => .error (.mismatch "number" other)

/-- The functions of numbers. -/
def numeric : List PureFunction := [
  .passing "abs" absolute,
  .passing "sqrt" (nonNegative "sqrt" Float.sqrt),
  .passing "exp" fun v => return float (← v.expectNumber).exp,
  .passing "log" (nonNegative "log" Float.log),
  .passing "round" (rounding Float.round),
  .passing "floor" (rounding Float.floor),
  .passing "ceil" (rounding Float.ceil),
  .passing "float" toFloat,
  .passing "Float64" toFloat,
  .passing "Float32" toFloat,
  .passing "int" toInteger,
  .passing "Int" toInteger,
  ⟨.scalar "string" (.atLeast 1), fun args => .ok (string (String.join (args.map Value.text)))⟩]

end TablePlan.Builtin
