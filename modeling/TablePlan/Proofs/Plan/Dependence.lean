import TablePlan.Proofs.Function.Merging
import TablePlan.Proofs.Plan.Purity

/-!
# What binding depends on

A plan tells which variables of the caller binding looks at: the captures of its functions and the
identifiers of the expressions that are evaluated for the caller. Scopes that agree on these, having
the same value or none for each, cannot be told apart by binding.
-/

namespace TablePlan

variable {σ : Type}

/-! ### Evaluation -/

namespace Env

/-- Both environments have the same value, or none, for each of the names. -/
def AgreeOn (names : List String) (left right : Env) : Prop :=
  ∀ n ∈ names, left.get? n = right.get? n

theorem AgreeOn.mono {names names' : List String} {left right : Env} (h : AgreeOn names left right)
    (fewer : names' ⊆ names) : AgreeOn names' left right :=
  fun n inside => h n (fewer inside)

end Env

/-- Settings that differ in the scope of the caller only, and not in these names. -/
inductive Setting.AgreeOn (names : List String) : Setting → Setting → Prop
  | selector {left right : Scope} (scopes : Env.AgreeOn names left right) :
      AgreeOn names (.selector left) (.selector right)
  | sink {left right : Scope} (schema : Schema) (scopes : Env.AgreeOn names left right) :
      AgreeOn names (.sink left schema) (.sink right schema)

theorem Setting.AgreeOn.mono {names names' : List String} {left right : Setting}
    (h : AgreeOn names left right) (fewer : names' ⊆ names) : AgreeOn names' left right := by
  cases h with
  | selector scopes => exact .selector (scopes.mono fewer)
  | sink schema scopes => exact .sink schema (scopes.mono fewer)

namespace Expr

/-- The names of all identifiers in an expression, those of interpolations included. -/
def identNames (e : Expr) : List String :=
  e.nodes.filterMap fun
    | ident name => some name
    | _ => none

theorem identNames_child {e c : Expr} (child : c ∈ e.children) : c.identNames ⊆ e.identNames := by
  intro n inside
  obtain ⟨k, node, named⟩ := List.mem_filterMap.mp inside
  exact List.mem_filterMap.mpr ⟨k, mem_nodes_of_child child node, named⟩

theorem mem_identNames_ident (name : String) : name ∈ (ident name).identNames := by
  simp [identNames, nodes]

end Expr

namespace Eval

variable {registry : Registry σ}

/-- A node without an answer is evaluated from the values of its parts. -/
theorem evalWith_congr {left right : Answers σ} {e : Expr} (unanswered : left e = none)
    (unanswered' : right e = none) (unread : e.isReference = false)
    (parts : ∀ c ∈ e.children, evalWith registry left c = evalWith registry right c) :
    evalWith registry left e = evalWith registry right e := by
  have whole := e.withChildren_children
  have runs : (Parallel.twice σ).Runs (evalWith registry left e)
      (evalWith registry right (e.withChildren e.children)) :=
    .withChildren (Parallel.twice_agrees registry) unanswered (by rw [whole, unanswered']) unread
      (Parallel.twice_reads e) ?targets ?parts
  case targets =>
    rintro target value rfl
    rfl
  case parts =>
    exact List.forall₂_same.mpr fun c child => Parallel.runs_twice_iff.mpr (parts c child)
  rw [whole] at runs
  exact Parallel.runs_twice_iff.mp runs

theorem lookup_congr {names : List String} {left right : Setting} (agree : left.AgreeOn names right)
    {name : String} (inside : name ∈ names) :
    (lookup left name : EvalM σ Value) = lookup right name := by
  cases agree with
  | selector scopes | sink _ scopes => simp only [lookup, Setting.scope?, scopes name inside]

/-- An expression that is evaluated for the caller looks up no variable of the caller but those its
identifiers name. -/
theorem eval_congr {left right : Setting} {e : Expr} (agree : left.AgreeOn e.identNames right) :
    eval registry left e = eval registry right e := by
  induction e using Expr.childInduction generalizing left right with
  | step e ih =>
      have part {l r : Setting} (both : l.AgreeOn e.identNames r) (c : Expr)
          (child : c ∈ e.children) : eval registry l c = eval registry r c :=
        ih c child (both.mono (Expr.identNames_child child))
      cases e with
      | ident name =>
          rw [eval, eval]
          exact lookup_congr agree (Expr.mem_identNames_ident name)
      | column c =>
          rw [eval, eval]
          cases agree <;> cases c <;> rfl
      | interpolated inner =>
          -- The inner expression is evaluated for a specifier whatever the outer one is for.
          have own : inner ∈ (Expr.interpolated inner).children := by simp [Expr.children]
          cases agree with
          | selector scopes =>
              rw [eval, eval]
              exact part (.selector scopes) inner own
          | sink schema scopes =>
              rw [eval, eval, part (.selector scopes) inner own]
      | _ =>
          rw [eval_eq_evalWith, eval_eq_evalWith]
          refine evalWith_congr (by cases agree <;> rfl) (by cases agree <;> rfl) rfl
            fun c child => ?_
          rw [← eval_eq_evalWith, ← eval_eq_evalWith]
          exact part agree c child

end Eval

theorem evaluateFor_congr {registry : Registry σ} {left right : Setting} (shown : Expr) {e : Expr}
    (agree : left.AgreeOn e.identNames right) :
    evaluateFor registry left shown e = evaluateFor registry right shown e := by
  unfold evaluateFor Eval.run
  rw [Eval.eval_congr agree]

/-! ### References, captures and targets -/

namespace Reference

/-- The identifiers of a reference that is resolved for the caller. -/
def scopeNames : Reference → List String
  | static _ => []
  | deferred inner => inner.identNames

variable {registry : Registry σ} {schema : Schema} {left right : Scope}

theorem resolve_congr {r : Reference} (agree : Env.AgreeOn r.scopeNames left right) :
    r.resolve registry schema left = r.resolve registry schema right := by
  cases r with
  | static spec => rfl
  | deferred inner =>
      have value : evaluateFor registry (.selector left) (.interpolated inner) inner
          = evaluateFor registry (.selector right) (.interpolated inner) inner :=
        evaluateFor_congr _ (.selector agree)
      simp only [resolve, specifier, value]

end Reference

theorem Sources.ofBindings_congr {registry : Registry σ} {schema : Schema} {left right : Scope}
    {bindings : List Binding} (s : Sources)
    (agree : ∀ b ∈ bindings, Env.AgreeOn b.reference.scopeNames left right) :
    ofBindings registry schema left s bindings = ofBindings registry schema right s bindings := by
  induction bindings generalizing s with
  | nil => rfl
  | cons b rest ih =>
      rw [List.forall_mem_cons] at agree
      simp only [ofBindings, Reference.resolve_congr agree.1, ih _ agree.2]

namespace Template

theorem instantiate_congr {t : Template} {registry : Registry σ} {left right : Scope}
    (agree : Env.AgreeOn t.captures left right) :
    t.instantiate registry left = t.instantiate registry right := by
  have captured : t.captures.mapM (capture left) = t.captures.mapM (capture right) :=
    mapM_congr_forall₂ <| List.forall₂_same.mpr fun n inside => by
      rw [capture, capture, agree n inside]
  rw [instantiate, instantiate, captured]

end Template

/-- The identifiers of a target that the caller chooses. -/
def Target.scopeNames : Target → List String
  | explicit e => e.identNames
  | _ => []

/-! ### Plans -/

namespace ArgumentPlan

/-- The names of the caller that binding an argument looks at. -/
def scopeNames (plan : ArgumentPlan) : List String :=
  plan.template.captures ++ plan.bindings.flatMap (fun b => b.reference.scopeNames)
    ++ plan.target.scopeNames

theorem bind_of_agreeOn {plan : ArgumentPlan} {registry : Registry σ} {schema : Schema}
    {left right : Scope} (agree : Env.AgreeOn plan.scopeNames left right) :
    plan.bind registry schema left = plan.bind registry schema right := by
  have captures : Env.AgreeOn plan.template.captures left right :=
    agree.mono fun n inside => by simp [scopeNames, inside]
  have references (b : Binding) (listed : b ∈ plan.bindings) :
      Env.AgreeOn b.reference.scopeNames left right := by
    refine agree.mono fun n inside => ?_
    have read : n ∈ plan.bindings.flatMap fun b => b.reference.scopeNames :=
      List.mem_flatMap.mpr ⟨b, listed, inside⟩
    simp [scopeNames, read]
  have target : Env.AgreeOn plan.target.scopeNames left right :=
    agree.mono fun n inside => by simp [scopeNames, inside]
  have made (aliases : List (String × String)) :
      (plan.template.mergeParams aliases).instantiate registry left
        = (plan.template.mergeParams aliases).instantiate registry right :=
    Template.instantiate_congr (by rwa [Template.captures_mergeParams])
  unfold bind
  rw [Sources.ofBindings_congr _ references]
  refine bind_congr fun sources => ?_
  simp only [made]
  refine bind_congr fun function => ?_
  cases named : plan.target with
  | explicit e =>
      rw [named] at target
      simp only [evaluateFor_congr e (.sink schema target)]
  | _ => rfl

end ArgumentPlan

namespace Plan

/-- The names of the caller that binding a plan looks at. -/
def scopeNames (plan : Plan σ) : List String :=
  plan.arguments.flatMap ArgumentPlan.scopeNames
    ++ plan.options.flatMap fun option => option.2.identNames

variable {registry : Registry σ} {schema : Schema} {left right : Scope}

theorem bindArguments_congr {plans : List ArgumentPlan}
    (agree : ∀ plan ∈ plans, Env.AgreeOn plan.scopeNames left right) :
    bindArguments registry schema left plans = bindArguments registry schema right plans := by
  induction plans with
  | nil => rfl
  | cons plan rest ih =>
      rw [List.forall_mem_cons] at agree
      simp only [bindArguments, ArgumentPlan.bind_of_agreeOn agree.1, ih agree.2]

theorem bindOptions_congr {options : List (String × Expr)}
    (agree : ∀ option ∈ options, Env.AgreeOn option.2.identNames left right) :
    bindOptions registry schema left options = bindOptions registry schema right options := by
  induction options with
  | nil => rfl
  | cons option rest ih =>
      rw [List.forall_mem_cons] at agree
      simp only [bindOptions, evaluateFor_congr option.2 (.sink schema agree.1), ih agree.2]

/-- Variables of the caller that a plan does not name do not matter: with scopes that agree on the
names it looks at, binding is one computation, which fails alike or gives one pipeline. -/
theorem unused_variables_do_not_interfere {plan : Plan σ}
    (agree : Env.AgreeOn plan.scopeNames left right) :
    plan.bind schema left = plan.bind schema right := by
  have arguments (argument : ArgumentPlan) (listed : argument ∈ plan.arguments) :
      Env.AgreeOn argument.scopeNames left right := by
    refine agree.mono fun n inside => List.mem_append_left _ ?_
    exact List.mem_flatMap.mpr ⟨argument, listed, inside⟩
  have options (option : String × Expr) (listed : option ∈ plan.options) :
      Env.AgreeOn option.2.identNames left right := by
    refine agree.mono fun n inside => List.mem_append_right _ ?_
    exact List.mem_flatMap.mpr ⟨option, listed, inside⟩
  simp only [bind, bindArguments_congr arguments, bindOptions_congr options]

/-- `$t = $v + k; rows = n` binds alike whatever the caller keeps in `u`. -/
theorem unread_variable_does_not_interfere : ∃ (plan : Plan Unit) (pipeline : Pipeline Unit),
    plan.scopeNames = ["k", "v", "t", "n"] ∧ ∀ u, (plan.bind ⟨"t", [⟨"a", .int, true⟩]⟩ (Env.ofList
      [("k", .int 1), ("v", .string "a"), ("t", .string "a"), ("n", .int 3), ("u", u)])).run ()
      = (.ok pipeline, ()) := by
  let table : Schema := ⟨"t", [⟨"a", .int, true⟩]⟩
  let vars : List (String × Value) :=
    [("k", .int 1), ("v", .string "a"), ("t", .string "a"), ("n", .int 3)]
  let call : Call := ⟨"transform", ⟨[.assign (.interpolated (.ident "t"))
    (.binary .add (.interpolated (.ident "v")) (.ident "k") false)], [("rows", .ident "n")]⟩⟩
  obtain ⟨plan, pipeline, planned, names, bound⟩ :
      ∃ (plan : Plan Unit) (pipeline : Pipeline Unit),
        ofCall (Registry.empty "1") call = .ok plan ∧ plan.scopeNames = ["k", "v", "t", "n"]
        ∧ (plan.bind table (Env.ofList vars)).run () = (.ok pipeline, ()) :=
    ⟨_, _, rfl, rfl, rfl⟩
  refine ⟨plan, pipeline, names, fun u => ?_⟩
  have agree : Env.AgreeOn plan.scopeNames (Env.ofList (vars ++ [("u", u)])) (Env.ofList vars) := by
    rw [names]
    intro n inside
    simp only [List.mem_cons, List.not_mem_nil, or_false] at inside
    rcases inside with rfl | rfl | rfl | rfl <;> rfl
  exact (congrArg (fun x => x.run ()) (unused_variables_do_not_interfere agree)).trans bound

end Plan

end TablePlan
