import TablePlan.Plan.Basic
import TablePlan.Plan.Pairing
import TablePlan.Plan.Summary
import TablePlan.Value.Exchange

/-!
# Pipelines

Binding ties a plan to a table and to the scope of the caller: specifiers become columns, free
names become captured values, and an argument that selects several columns becomes one triple of
sources, function and sink for each of them. Parameters that turn out to read the same columns
are merged.
-/

namespace TablePlan

/-- A computation that binds an argument; functions may keep a state. -/
abbrev BindM (σ : Type) := ExceptT ArgumentError (StateM σ)

variable {σ : Type}

/-- The value of an expression evaluated for the caller, without local variables. -/
def evaluateFor (registry : Registry σ) (setting : Setting) (shown e : Expr) : BindM σ Value := do
  let (result, _) ← (Eval.run registry setting e .empty : StateM σ _)
  (result.mapError (ArgumentError.ofEvaluation shown.text) : Except ArgumentError Value)

namespace Reference

/-- The specifier of a reference in the scope of the caller. -/
def specifier (registry : Registry σ) (scope : Scope) : Reference → BindM σ ColumnSpec
  | static spec => return spec
  | deferred inner => do
    let shown := Expr.interpolated inner
    let v ← evaluateFor registry (.selector scope) shown inner
    match v.toSpec with
    | .ok spec => return spec
    | .error e => throw (.ofSpec shown.text e)

/-- The columns of a reference. -/
def resolve (registry : Registry σ) (schema : Schema) (scope : Scope) (r : Reference) :
    BindM σ Selection := do
  let spec ← r.specifier registry scope
  match spec.resolve schema with
  | .ok selection => return selection
  | .error e => throw (.ofSpec spec.text e)

end Reference

namespace Sink

/-- The fields of the first record in a result. -/
def recordFields? : Value → Option (List (String × Value))
  | .record fields => some fields
  | .list items => items.findSome? fun
    | .record fields => some fields
    | _ => none
  | _ => none

/-- The columns that a result goes to. -/
def columnsFor (sink : Sink) (output : Value) : Except EvalError (List String) :=
  match sink with
  | column name => .ok [name]
  | expandRecord =>
    match recordFields? output with
    | some fields => .ok (fields.map Prod.fst)
    | none => .error (.mismatch "expand record" [output])

/-- The columns that the value of a target names. -/
def selection (schema : Schema) (target : Expr) (v : Value) : Except ArgumentError Selection :=
  let unnameable (v : Value) : ArgumentError :=
    .unresolvableSpecifier target.text ("a " ++ v.typeName ++ " cannot name a column")
  let named (v : Value) : Except ArgumentError String :=
    match v with
    | .string name => .ok name
    | .spec spec => (spec.resolveSingle schema).mapError (.ofSpec target.text)
    | other => .error (unnameable other)
  match v with
  | .string name => .ok (.scalar name)
  | .spec spec => (spec.resolve schema).mapError (.ofSpec target.text)
  | .list items => return ⟨← items.mapM named, v.shape⟩
  | .grid g => return ⟨← g.elements.mapM named, g.shape⟩
  | other => .error (unnameable other)

end Sink

/-- A function with the columns it reads and its sink. -/
structure Triple (σ : Type) where
  argument : Nat
  sources : List String
  function : Function σ
  sink : Sink

namespace Function

/-- The summary of a function. -/
def summary (f : Function σ) : FunctionSummary :=
  ⟨f.params, f.body.text, f.mode, f.passMissing⟩

end Function

namespace Triple

/-- The summary of a triple. -/
def summary (t : Triple σ) : TripleSummary :=
  ⟨t.argument, t.sources, t.function.summary, t.sink⟩

end Triple

/-- The columns that parameters read, and the parameters merged with earlier ones. -/
structure Sources where
  kept : List (String × Selection)
  aliases : List (String × String)

namespace Sources

/-- Add a parameter, merging it if its columns are read already. -/
def add (s : Sources) (param : String) (selection : Selection) : Sources :=
  match s.kept.find? fun k => k.2 = selection with
  | some k => { s with aliases := s.aliases ++ [(param, k.1)] }
  | none => { s with kept := s.kept ++ [(param, selection)] }

/-- The columns that bindings read. -/
def ofBindings (registry : Registry σ) (schema : Schema) (scope : Scope) (s : Sources) :
    List Binding → BindM σ Sources
  | [] => return s
  | b :: rest => do
    let selection ← b.reference.resolve registry schema scope
    ofBindings registry schema scope (s.add b.param selection) rest

end Sources

namespace ArgumentPlan

/-- The sink of an element of a pairing. -/
def sinkOf (plan : ArgumentPlan) (naming : Naming) (sources : List String) (sink : Option String) :
    Sink :=
  match plan.target, sink with
  | .expandRecord _, _ => .expandRecord
  | _, some name => .column name
  | _, none => .column (naming.sinkName sources)

/-- The triples of an argument for a table and the scope of the caller. -/
def bind (plan : ArgumentPlan) (registry : Registry σ) (schema : Schema) (scope : Scope) :
    BindM σ (List (Triple σ)) := do
  let sources ← Sources.ofBindings registry schema scope ⟨[], []⟩ plan.bindings
  let template := plan.template.mergeParams sources.aliases
  let function ← (template.instantiate registry scope : Except ArgumentError (Function σ))
  let sink ← match plan.target with
    | .explicit e => do
      let v ← evaluateFor registry (.sink scope schema) e e
      let selection ← (Sink.selection schema e v : Except ArgumentError Selection)
      pure (some selection)
    | _ => pure none
  let pairing ← (Pairing.ofSelections (sources.kept.map Prod.snd) sink
    : Except ArgumentError Pairing)
  let sinks := match pairing.sinks with
    | some names => names.map some
    | none => pairing.sources.map fun _ => none
  return (pairing.sources.zip sinks).map fun (names, sink) =>
    ⟨plan.index, names, function, plan.sinkOf template.naming names sink⟩

end ArgumentPlan

/-- A bound call for the table engine. -/
structure Pipeline (σ : Type) where
  kind : Kind
  triples : List (Triple σ)
  options : List (String × Value)

namespace Pipeline

/-- The value of the first option of a name. -/
def option? (p : Pipeline σ) (name : String) : Option Value :=
  p.options.lookup name

/-- The summary of a bound call. -/
def summary (p : Pipeline σ) : Summary where
  kind := p.kind
  operation := p.kind.operation
  options := p.options.map fun o => (o.1, o.2.toJson.canonical)
  triples := p.triples.map Triple.summary

end Pipeline

namespace Plan

/-- A computation that binds a plan. -/
abbrev PlanM (σ : Type) := ExceptT PlanError (StateM σ)

/-- The triples of several arguments. -/
def bindArguments (registry : Registry σ) (schema : Schema) (scope : Scope) :
    List ArgumentPlan → PlanM σ (List (Triple σ))
  | [] => return []
  | plan :: rest => do
    let result ← ((plan.bind registry schema scope).run : StateM σ _)
    let triples ← (result.mapError (.argument plan.index) : Except PlanError (List (Triple σ)))
    return triples ++ (← bindArguments registry schema scope rest)

/-- The values of several options. -/
def bindOptions (registry : Registry σ) (schema : Schema) (scope : Scope) :
    List (String × Expr) → PlanM σ (List (String × Value))
  | [] => return []
  | (name, e) :: rest => do
    let result ← ((evaluateFor registry (.sink scope schema) e e).run : StateM σ _)
    let v ← (result.mapError (.option name) : Except PlanError Value)
    return (name, v) :: (← bindOptions registry schema scope rest)

/-- Bind a plan to a table and to the scope of the caller. -/
def bind (plan : Plan σ) (schema : Schema) (scope : Scope) : PlanM σ (Pipeline σ) := do
  let triples ← bindArguments plan.registry schema scope plan.arguments
  let options ← bindOptions plan.registry schema scope plan.options
  return ⟨plan.kind, triples, options⟩

end Plan

end TablePlan
