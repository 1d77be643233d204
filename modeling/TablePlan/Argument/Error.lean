import TablePlan.Eval.Error

/-!
# Errors of one argument
-/

namespace TablePlan

/-- Why one argument cannot be planned or bound. -/
inductive ArgumentError where
  | malformedDirective (letters reason : String)
  | conflictingDirective (letters : String)
  | invalidDirectiveTarget (letters target reason : String)
  | ambiguousReference (name : String)
  | duplicateTarget (name : String)
  | broadcastShapeMismatch (shapes : List Shape)
  | unresolvableSpecifier (spec reason : String)
  | unexpectedAssignment (target : String)
  | evaluation (cause : EvalError)
  | malformedSelection
  | stopped (cause : Stop)

namespace ArgumentError

/-- The wording of the error. -/
def message : ArgumentError → String
  | malformedDirective letters reason => "Malformed directive @" ++ letters ++ ": " ++ reason
  | conflictingDirective letters =>
    "Conflicting directives @" ++ letters ++ ": row and column mode are exclusive"
  | invalidDirectiveTarget letters target reason =>
    "Directive @" ++ letters ++ " cannot wrap `" ++ target ++ "`: " ++ reason
  | ambiguousReference name =>
    "Ambiguous reference `" ++ name ++ "`: neither a column reference nor a value in scope"
  | duplicateTarget name => "Duplicate target column `" ++ name ++ "`"
  | broadcastShapeMismatch shapes => "Cannot broadcast shapes " ++ EvalError.shapesText shapes
  | unresolvableSpecifier spec reason =>
    "Cannot resolve column specifier " ++ spec ++ ": " ++ reason
  | unexpectedAssignment target =>
    "Column assignment `" ++ target
      ++ "` is only allowed as the argument target or inside @t"
  | evaluation cause => cause.message
  | malformedSelection => "Selection shape does not match its number of names"
  | stopped cause => cause.message

/-- What the planning or binding broke off for, if it did. -/
def stop? : ArgumentError → Option Stop
  | stopped cause => some cause
  | evaluation cause => cause.stop?
  | _ => none

/-- A failure of resolving the specifier shown. -/
def ofSpec (shown : String) : SpecError → ArgumentError
  | .stopped cause => .stopped cause
  | cause => .unresolvableSpecifier shown cause.message

/-- A failure of evaluating, in the scope of the caller, the expression shown. -/
def ofEvaluation (shown : String) : EvalError → ArgumentError
  | .undefinedVariable name => .ambiguousReference name
  | .spec cause => ofSpec shown cause
  | cause => .evaluation cause

end ArgumentError

end TablePlan
