import TablePlan.Registry.Argument

/-!
# Column selectors

Functions that compute a column specifier, for use in interpolations.
-/

namespace TablePlan.Builtin

open Value

/-- A selector of columns by a test on their names. -/
def nameTest (name : String) (test : String → NamePredicate) : PureFunction :=
  ⟨.selector name (.exact 1), fun
    | [v] => return spec (.predicate (test (← v.expectString)))
    | args => .error (.argumentCount args.length)⟩

/-- All columns but the given ones. -/
def complement : List Value → Except FunctionError Value
  | [v] => return spec (.not (← v.expectSpec))
  | args => .error (.argumentCount args.length)

/-- The columns from one to another. -/
def between : List Value → Except FunctionError Value
  | [first, last] => return spec (.range (← first.expectSpec) (← last.expectSpec))
  | args => .error (.argumentCount args.length)

/-- The columns that one value means, or those that several mean one by one. -/
def columns : List Value → Except FunctionError Value
  | [v] => return spec (← v.expectSpec)
  | args => return spec (.collection (← args.mapM expectSpec))

/-- The column selectors. -/
def selectors : List PureFunction := [
  ⟨.selector "all" (.exact 0), fun _ => .ok (spec .all)⟩,
  ⟨.selector "not" (.exact 1), complement⟩,
  ⟨.selector "between" (.exact 2), between⟩,
  ⟨.selector "cols" (.atLeast 1), columns⟩,
  nameTest "startswith" .startsWith,
  nameTest "endswith" .endsWith,
  nameTest "contains" .contains]

end TablePlan.Builtin
