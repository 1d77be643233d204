import TablePlan.Argument.Error
import TablePlan.Eval.Basic
import TablePlan.Function.Template

/-!
# Functions

A template with its captured values is a function that the table engine can call: once per row, or
once with whole columns.
-/

namespace TablePlan

/-- A function that can be called. -/
structure Function (σ : Type) where
  params : List String
  body : Expr
  mode : Mode
  passMissing : Bool
  captured : List (String × Value)
  registry : Registry σ

namespace Template

/-- Capture one value from the scope of the caller. -/
def capture (scope : Scope) (name : String) : Except ArgumentError (String × Value) :=
  match scope.get? name with
  | some v => .ok (name, v)
  | none => .error (.ambiguousReference name)

/-- The function of a template in the scope of the caller. -/
def instantiate {σ : Type} (t : Template) (registry : Registry σ) (scope : Scope) :
    Except ArgumentError (Function σ) := do
  let captured ← t.captures.mapM (capture scope)
  return ⟨t.params, t.body, t.mode, t.passMissing, captured, registry⟩

end Template

namespace Function

variable {σ : Type}

/-- The number of arguments. -/
def arity (f : Function σ) : Nat :=
  f.params.length

/-- Whether a missing argument settles the result without running the body. -/
def skips (f : Function σ) (args : List Value) : Bool :=
  f.passMissing && f.mode == .rowWise && args.any Value.isMissing

/-- The variables that the body starts with. -/
def env (f : Function σ) (args : List Value) : Env :=
  Env.ofList (f.captured ++ f.params.zip args)

/-- Call the function once. -/
def call (f : Function σ) (args : List Value) : StateM σ (Except EvalError Value) :=
  if args.length ≠ f.arity then return .error (.arityMismatch f.arity args.length)
  else if f.skips args then return .ok .missing
  else return (← Eval.run f.registry .body f.body (f.env args)).1

/-- The elements of a column that has the given number of rows. -/
def columnItems (rows : Nat) (column : Value) : Except EvalError (List Value) :=
  match column with
  | .list items =>
    if items.length = rows then .ok items else .error (.shapeMismatch [column.shape, [rows]])
  | other => .error (.shapeMismatch [other.shape, [rows]])

/-- The arguments of every row. -/
def rowArguments (columns : List (List Value)) (rows : Nat) : List (List Value) :=
  (List.range rows).map fun row => columns.filterMap fun items => items[row]?

/-- Call the function for one row after another until a call fails. -/
def callRows (f : Function σ) : List (List Value) → ExceptT EvalError (StateM σ) (List Value)
  | [] => return []
  | args :: rest => do
    let v ← f.call args
    return v :: (← callRows f rest)

/-- Run the function over whole columns: for every row in row mode, where the results make a
column, and just once otherwise. -/
def apply (f : Function σ) (columns : List Value) (rows : Nat) :
    ExceptT EvalError (StateM σ) Value :=
  match f.mode with
  | .columnWise => f.call columns
  | .rowWise => do
    let columns ← (columns.mapM (columnItems rows) : Except EvalError (List (List Value)))
    return .list (← f.callRows (rowArguments columns rows))

end Function

end TablePlan
