import TablePlan.Eval.Error
import TablePlan.Expr.Basic

/-!
# Operators on scalars

A missing operand gives a missing result. Arithmetic on integers is exact: a result out of range
is an error and never wraps. Mixed numbers are computed as floats.

Equality compares numbers by value and lists element by element. It is missing when it depends on
a missing element, and everything else is compared by structure.
-/

namespace TablePlan

namespace Value

/-- Whether a value is an integer or a float. -/
def isNumber : Value → Bool
  | int _ | float _ => true
  | _ => false

mutual

/-- Whether two values are equal, if that does not depend on a missing one. -/
def equal? : Value → Value → Option Bool
  | missing, _ => none
  | _, missing => none
  | list a, list b => if a.length = b.length then equalItems? a b else some false
  | a, b =>
    if a.isNumber && b.isNumber then some (a.compare? b == some .eq) else some (a.same b)

/-- Whether two lists are equal element by element; a difference settles it. -/
def equalItems? : List Value → List Value → Option Bool
  | a :: as, b :: bs =>
    match equal? a b, equalItems? as bs with
    | some false, _ => some false
    | some true, rest => rest
    | none, some false => some false
    | none, _ => none
  | _, _ => some true

end

end Value

namespace Eval

open Value

/-- An integer in range, or the error of an overflow. -/
def fitting (i : Int) : Except EvalError Value :=
  if Int64.minValue.toInt ≤ i ∧ i ≤ Int64.maxValue.toInt then .ok (int (Int64.ofInt i))
  else .error (.arithmetic "integer overflow")

/-- The power of an integer in range; exponents beyond the width of a word overflow at once,
unless the base is too small to grow. -/
def intPower (base : Int) (exponent : Nat) : Except EvalError Value :=
  if base.natAbs ≤ 1 then fitting (base.pow (if exponent = 0 then 0 else 2 - exponent % 2))
  else if 64 ≤ exponent then .error (.arithmetic "integer overflow")
  else fitting (base.pow exponent)

/-- Arithmetic on integers. Division is by floats, and so is a power whose exponent is negative or
does not fit half a word. -/
def intArithmetic (op : BinaryOp) (a b : Int64) : Except EvalError Value :=
  match op with
  | .add => fitting (a.toInt + b.toInt)
  | .sub => fitting (a.toInt - b.toInt)
  | .mul => fitting (a.toInt * b.toInt)
  | .div => .ok (float (Decimal.ofInt64 a / Decimal.ofInt64 b))
  | .rem =>
    if b = 0 then .error (.arithmetic "integer division by zero")
    else if a = Int64.minValue ∧ b = -1 then .error (.arithmetic "integer overflow")
    else .ok (int (Int64.ofInt (a.toInt.tmod b.toInt)))
  | .pow =>
    if 0 ≤ b.toInt ∧ b.toInt < UInt32.size then intPower a.toInt b.toInt.toNat
    else .ok (float (Float.pow (Decimal.ofInt64 a) (Decimal.ofInt64 b)))
  | other => .error (.unsupported ("integer operator " ++ other.symbol))

/-- Arithmetic on floats. -/
def floatArithmetic (op : BinaryOp) (a b : Float) : Except EvalError Value :=
  match op with
  | .add => .ok (float (a + b))
  | .sub => .ok (float (a - b))
  | .mul => .ok (float (a * b))
  | .div => .ok (float (a / b))
  | .rem => .ok (float (Decimal.remainder a b))
  | .pow => .ok (float (Float.pow a b))
  | other => .error (.unsupported ("float operator " ++ other.symbol))

/-- A text several times in a row. -/
def repeatText (s : String) (count : Int64) : Except EvalError Value :=
  if count < 0 then .error (.arithmetic "negative repetition count")
  else if s.isEmpty then .ok (string s)
  else
    let times := count.toInt.toNat
    if s.utf8ByteSize * times ≤ Stop.maxBytes then
      .ok (string (String.join (List.replicate times s)))
    else .error (.stopped (.length s.utf8ByteSize times))

/-- Whether an order between two operands is the one that a comparison asks for. -/
def ordered (op : BinaryOp) (order : Ordering) : Bool :=
  match op with
  | .lt => order.isLT
  | .le => order.isLE
  | .gt => order.isGT
  | _ => order.isGE

/-- Arithmetic on two values. Texts are joined by a product and repeated by a power. -/
def arithmetic (op : BinaryOp) (left right : Value) : Except EvalError Value :=
  match op, left, right with
  | .mul, string a, string b => .ok (string (a ++ b))
  | .pow, string s, int n => repeatText s n
  | op, int a, int b => intArithmetic op a b
  | op, left, right =>
    match left.number?, right.number? with
    | some a, some b => floatArithmetic op a b
    | _, _ => .error (.mismatch op.symbol [left, right])

/-- An operator between two scalars. -/
def binary (op : BinaryOp) (left right : Value) : Except EvalError Value :=
  if left.isMissing || right.isMissing then .ok missing
  else
    match op with
    | .eq => .ok (bool (left.equal? right == some true))
    | .ne => .ok (bool (left.equal? right == some false))
    | .lt | .le | .gt | .ge =>
      match left.compare? right with
      | some order => .ok (bool (ordered op order))
      | none => .error (.mismatch op.symbol [left, right])
    | op => arithmetic op left right

/-- An operator before a scalar. -/
def unary (op : UnaryOp) (v : Value) : Except EvalError Value :=
  match op, v with
  | _, missing => .ok missing
  | .neg, int i => fitting (-i.toInt)
  | .neg, float x => .ok (float (-x))
  | .not, .bool b => .ok (.bool !b)
  | op, other => .error (.mismatch op.symbol [other])

/-- The truth value that decides a condition. -/
def condition (v : Value) : Except EvalError Bool :=
  match v.bool? with
  | some b => .ok b
  | none => .error (.nonBooleanCondition v.typeName)

/-- An operator between two whole values. Equality takes any two, the others no collections. -/
def wholeBinary (op : BinaryOp) (left right : Value) : Except EvalError Value :=
  match op with
  | .eq | .ne =>
    match left.equal? right with
    | some equal => .ok (bool (equal == (op == .eq)))
    | none => .ok missing
  | op =>
    if left.isCollection || right.isCollection then .error (.mismatch op.symbol [left, right])
    else binary op left right

/-- An operator before a whole value that is no collection. -/
def wholeUnary (op : UnaryOp) (v : Value) : Except EvalError Value :=
  if v.isCollection then .error (.mismatch op.symbol [v]) else unary op v

end Eval

end TablePlan
