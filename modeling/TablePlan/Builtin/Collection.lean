import TablePlan.Registry.Argument

/-!
# Functions of collections and tests for missing values
-/

namespace TablePlan.Builtin

open Value

/-- A text of one character. -/
def single (c : Char) : Value :=
  string (String.ofList [c])

/-- Whether the remainder of an integer by two is the given one. -/
def parity (remainder : Int) (v : Value) : Except FunctionError Value :=
  if v.isMissing then .ok missing
  else return bool ((← v.expectInt).toInt % 2 == remainder)

/-- The element that an end of a collection has, unless it is empty. -/
def orRefuse : Option Value → Except FunctionError Value
  | some v => .ok v
  | none => .error (.domain "collection must be non-empty")

/-- The first element of a collection or character of a text. -/
def firstElement : Value → Except FunctionError Value
  | string s => orRefuse (s.toList.head?.map single)
  | other => do orRefuse (← other.expectElements).head?

/-- The last element of a collection or character of a text. -/
def lastElement : Value → Except FunctionError Value
  | string s => orRefuse (s.toList.getLast?.map single)
  | other => do orRefuse (← other.expectElements).getLast?

/-- The elements of a collection or the characters of a text as a list. -/
def collect : Value → Except FunctionError Value
  | string s => .ok (list (s.toList.map single))
  | other => return list (← other.expectElements)

/-- A list or a text backwards. -/
def reversed : Value → Except FunctionError Value
  | string s => .ok (string (String.ofList s.toList.reverse))
  | list items => .ok (list items.reverse)
  | other => .error (.mismatch "list or string" other)

/-- A matrix with rows and columns exchanged; a list becomes a single row. -/
def transposed : Value → Except FunctionError Value
  | list items => .ok (grid ⟨[1, items.length], items⟩)
  | grid g =>
    match g.transposed? with
    | some t => .ok (grid t)
    | none => .error (.domain "permutedims needs a matrix")
  | other => .error (.mismatch "list or matrix" other)

/-- The functions of collections. -/
def collections : List PureFunction := [
  .unary "ismissing" fun v => .ok (bool v.isMissing),
  .unary "isnothing" fun v => .ok (bool v.isMissing),
  ⟨.scalar "coalesce" (.atLeast 1), fun args =>
    .ok ((args.find? fun v => !v.isMissing).getD missing)⟩,
  .unary "iseven" (parity 0),
  .unary "isodd" (parity 1),
  .unary "first" firstElement,
  .unary "last" lastElement,
  .unary "collect" collect,
  .unary "vec" fun v => return list (← v.expectElements),
  .unary "reverse" reversed,
  .unary "permutedims" transposed,
  .unary "skipmissing" fun v =>
    return list ((← v.expectElements).filter fun item => !item.isMissing)]

end TablePlan.Builtin
