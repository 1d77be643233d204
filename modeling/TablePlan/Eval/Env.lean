import TablePlan.Eval.Error

/-!
# Variables

Local variables are found innermost first; a block drops the ones it added when it ends. The scope
holds the variables of the caller.
-/

namespace TablePlan

/-- Variables with their values, innermost first. -/
structure Env where
  vars : List (String × Value)

/-- The variables of the caller. -/
abbrev Scope := Env

namespace Env

/-- No variables. -/
def empty : Env := ⟨[]⟩

/-- Variables given in the order they are added. -/
def ofList (vars : List (String × Value)) : Env := ⟨vars.reverse⟩

/-- Add a variable, which hides others of its name. -/
def push (env : Env) (name : String) (value : Value) : Env :=
  ⟨(name, value) :: env.vars⟩

/-- The value of the innermost variable of a name. -/
def get? (env : Env) (name : String) : Option Value :=
  env.vars.lookup name

/-- The number of variables. -/
def size (env : Env) : Nat :=
  env.vars.length

/-- Drop the innermost variables until `size` are left. -/
def truncate (env : Env) (size : Nat) : Env :=
  ⟨env.vars.drop (env.vars.length - size)⟩

@[simp] theorem size_push (env : Env) (name : String) (value : Value) :
    (env.push name value).size = env.size + 1 := rfl

@[simp] theorem get?_push (env : Env) (name other : String) (value : Value) :
    (env.push name value).get? other = if other == name then some value else env.get? other := by
  cases h : other == name <;> simp [push, get?, List.lookup_cons, h]

/-- Dropping what was added on top gives the variables from before. -/
theorem truncate_of_added {env env' : Env} {added : List (String × Value)}
    (grown : env'.vars = added ++ env.vars) : env'.truncate env.size = env := by
  simp [truncate, size, grown]

@[simp] theorem truncate_push (env : Env) (name : String) (value : Value) :
    (env.push name value).truncate env.size = env := by
  simp [push, truncate, size]

end Env

/-- What an evaluation reads and changes: local variables and the state that functions keep. -/
structure Machine (σ : Type) where
  env : Env
  state : σ

/-- A computation that may fail; variables and state survive a failure. -/
abbrev EvalM (σ : Type) := ExceptT EvalError (StateM (Machine σ))

namespace EvalM

variable {σ : Type}

/-- Add a local variable. -/
def push (name : String) (value : Value) : EvalM σ Unit :=
  modify fun m => { m with env := m.env.push name value }

/-- Call a function of the registry. -/
def call (registry : Registry σ) (func : String) (args : List Value) : EvalM σ Value := do
  let m ← get
  let (result, state) := registry.call func args m.state
  set { m with state }
  match result with
  | .ok v => return v
  | .error e => throw (.registry e)

end EvalM

end TablePlan
