import TablePlan.Registry.Basic

/-!
# Errors of evaluation
-/

namespace TablePlan

/-- Why an expression has no value. -/
inductive EvalError where
  | undefinedVariable (name : String)
  | registry (cause : RegistryError)
  | spec (cause : SpecError)
  | typeMismatch (op : String) (types : List String)
  | nonBooleanCondition (type : String)
  | indexOutOfBounds (index : Int64) (length : Nat)
  | destructureMismatch (expected actual : Nat)
  | unboundColumnReference (column : String)
  | shapeMismatch (shapes : List Shape)
  | arithmetic (reason : String)
  | arityMismatch (expected actual : Nat)
  | unsupported (what : String)
  | malformedGrid
  | stopped (cause : Stop)

namespace EvalError

/-- Several shapes between brackets. -/
def shapesText (shapes : List Shape) : String :=
  "[" ++ Text.joinWith ", " (shapes.map Shape.text) ++ "]"

/-- Several type names between brackets, each in quotes. -/
def typesText (types : List String) : String :=
  "[" ++ Text.joinWith ", " (types.map Text.quote) ++ "]"

/-- The wording of the error. -/
def message : EvalError → String
  | undefinedVariable name => "Undefined variable `" ++ name ++ "`"
  | registry cause => cause.message
  | spec cause => cause.message
  | typeMismatch op types => "No operator " ++ op ++ " for operand types " ++ typesText types
  | nonBooleanCondition type => "Condition must be a bool, got " ++ type
  | indexOutOfBounds index length =>
    "Index " ++ toString index ++ " out of bounds for length " ++ toString length
  | destructureMismatch expected actual =>
    "Cannot destructure " ++ toString actual ++ " value(s) into " ++ toString expected
      ++ " target(s)"
  | unboundColumnReference column =>
    "Column reference " ++ column ++ " was not bound to a parameter"
  | shapeMismatch shapes => "Cannot broadcast shapes " ++ shapesText shapes
  | arithmetic reason => reason
  | arityMismatch expected actual =>
    "Function expects " ++ toString expected ++ " argument(s), got " ++ toString actual
  | unsupported what => "Unsupported expression: " ++ what
  | malformedGrid => "Grid shape does not match its number of elements"
  | stopped cause => cause.message

/-- What the evaluation broke off for, if it did. -/
def stop? : EvalError → Option Stop
  | stopped cause => some cause
  | registry cause => cause.stop?
  | spec cause => cause.stop?
  | _ => none

/-- Operands of types that an operator is not defined on. -/
def mismatch (op : String) (operands : List Value) : EvalError :=
  typeMismatch op (operands.map Value.typeName)

end EvalError

end TablePlan
