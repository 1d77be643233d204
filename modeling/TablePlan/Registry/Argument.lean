import TablePlan.Registry.Basic

/-!
# Arguments of functions

The number of arguments is settled before a function runs, so a function by its number of
arguments only has to look at their types.
-/

namespace TablePlan

namespace Value

/-- A text. -/
def expectString (v : Value) : Except FunctionError String :=
  match v with
  | string s => .ok s
  | other => .error (.mismatch "string" other)

/-- A number as a double. -/
def expectNumber (v : Value) : Except FunctionError Float :=
  match v.number? with
  | some x => .ok x
  | none => .error (.mismatch "number" v)

/-- An integer. -/
def expectInt (v : Value) : Except FunctionError Int64 :=
  match v with
  | int i => .ok i
  | other => .error (.mismatch "int" other)

/-- The elements of a list or a grid. -/
def expectElements (v : Value) : Except FunctionError (List Value) :=
  match v with
  | list items => .ok items
  | grid g => .ok g.elements
  | other => .error (.mismatch "collection" other)

/-- A column specifier. -/
def expectSpec (v : Value) : Except FunctionError ColumnSpec :=
  v.toSpec.mapError .spec

end Value

namespace PureFunction

/-- A function of one value. -/
def unary (name : String) (f : Value → Except FunctionError Value) : PureFunction :=
  ⟨.scalar name (.exact 1), fun
    | [x] => f x
    | args => .error (.argumentCount args.length)⟩

/-- A function of one value that passes the missing value through. -/
def passing (name : String) (f : Value → Except FunctionError Value) : PureFunction :=
  unary name fun x => if x.isMissing then .ok .missing else f x

/-- A function of two values. -/
def binary (name : String) (f : Value → Value → Except FunctionError Value) : PureFunction :=
  ⟨.scalar name (.exact 2), fun
    | [x, y] => f x y
    | args => .error (.argumentCount args.length)⟩

/-- A reduction of one collection. -/
def reduction (name : String) (f : List Value → Except FunctionError Value) : PureFunction :=
  ⟨.aggregate name, fun
    | [x] => do f (← x.expectElements)
    | args => .error (.argumentCount args.length)⟩

end PureFunction

end TablePlan
