import TablePlan.Argument.Collected
import TablePlan.Argument.Peeled
import TablePlan.Function.Basic
import TablePlan.Function.Reference
import TablePlan.Grammar.Call

/-!
# Plans

A plan is what is known of a call before the table and the scope of the caller are: for every
argument a function template, the references it reads and the target it writes to. Planning stops
at the first argument that fails and reports its position.
-/

namespace TablePlan

/-- Where the results of an argument go. -/
inductive Target where
  /-- To columns named after the sources and the function. -/
  | auto
  /-- To the columns that an expression names. -/
  | explicit (e : Expr)
  /-- To one column for every field of a record. -/
  | expandRecord (fields : List String)

/-- One argument, not tied to a table yet. -/
structure ArgumentPlan where
  index : Nat
  source : String
  directives : Directives
  bindings : List Binding
  template : Template
  target : Target

/-- Why a call cannot be planned or bound. Arguments count from zero. -/
inductive PlanError where
  | argument (index : Nat) (cause : ArgumentError)
  | option (name : String) (cause : ArgumentError)
  | unknownKind (cause : UnknownKind)

namespace PlanError

/-- The wording of the error. -/
def message : PlanError → String
  | argument index cause => "argument " ++ toString (index + 1) ++ ": " ++ cause.message
  | option name cause => "option `" ++ name ++ "`: " ++ cause.message
  | unknownKind cause => cause.message

/-- What the planning or binding broke off for, if it did. -/
def stop? : PlanError → Option Stop
  | argument _ cause | option _ cause => cause.stop?
  | unknownKind _ => none

end PlanError

namespace ArgumentPlan

variable {σ : Type}

/-- Refuse an assignment to columns inside a body. -/
def refuseColumnTargets (body : Expr) : Except ArgumentError Unit :=
  let offending := body.find? fun
    | .assign target _ => (target.find? Expr.isReference).isSome
    | _ => false
  match offending with
  | some (.assign target _) => .error (.unexpectedAssignment target.text)
  | _ => .ok ()

/-- Refuse calls of unknown functions or with a number of arguments that none accepts. -/
def checkCalls (registry : Registry σ) (body : Expr) : Except ArgumentError Unit :=
  body.nodes.forM fun
    | .call func args _ => do
      let _ ← (registry.lookup func args.length).mapError fun e =>
        ArgumentError.evaluation (.registry e)
    | _ => return

/-- The body and the target of an argument taken apart. -/
def bodyAndTarget (p : Peeled) : Except ArgumentError (Expr × Target) :=
  if p.directives.collect then do
    let collected ← Collected.ofBody p.body
    return (collected.body, .expandRecord collected.fields)
  else
    match p.target with
    | some e => .ok (p.body, .explicit e)
    | none => .ok (p.body, .auto)

/-- The plan of one argument. -/
def ofArgument (registry : Registry σ) (kind : Kind) (index : Nat) (arg : Expr) :
    Except ArgumentError ArgumentPlan := do
  let p ← Peeled.ofArgument arg
  let mode ← p.directives.mode kind.defaultMode
  let (body, target) ← bodyAndTarget p
  refuseColumnTargets body
  let (body, bindings) := Id.run (body.replaceReferences.run [])
  checkCalls registry body
  let template := Template.ofBody (bindings.map Binding.param) body mode p.directives.passMissing
  return ⟨index, arg.text, p.directives, bindings, template, target⟩

end ArgumentPlan

/-- A planned call. -/
structure Plan (σ : Type) where
  kind : Kind
  arguments : List ArgumentPlan
  options : List (String × Expr)
  registry : Registry σ

namespace Plan

variable {σ : Type}

/-- Put the statements of every block without a directive in its place; `index` is the position of
the first argument. -/
def expandBlocks (index : Nat) : List Expr → Except PlanError (List Expr)
  | [] => .ok []
  | arg :: rest => do
    match ← arg.role.mapError (PlanError.argument index) with
    | .block statements => return statements ++ (← expandBlocks (index + 1) rest)
    | _ => return arg :: (← expandBlocks (index + 1) rest)

/-- The plans of arguments from position `index` on. -/
def planArguments (registry : Registry σ) (kind : Kind) (index : Nat) :
    List Expr → Except PlanError (List ArgumentPlan)
  | [] => .ok []
  | arg :: rest => do
    let plan ← (ArgumentPlan.ofArgument registry kind index arg).mapError (.argument index)
    return plan :: (← planArguments registry kind (index + 1) rest)

/-- The plan of a call of the given kind. -/
def ofArguments (registry : Registry σ) (kind : Kind) (arguments : Arguments) :
    Except PlanError (Plan σ) := do
  let args ← expandBlocks 0 arguments.positional
  return ⟨kind, ← planArguments registry kind 0 args, arguments.options, registry⟩

/-- The plan of a call. -/
def ofCall (registry : Registry σ) (call : Call) : Except PlanError (Plan σ) := do
  let kind ← call.kind?.mapError .unknownKind
  ofArguments registry kind call.arguments

end Plan

end TablePlan
