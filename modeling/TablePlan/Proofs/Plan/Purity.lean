import TablePlan.Plan.Pipeline
import TablePlan.Proofs.Eval.Parallel
import TablePlan.Proofs.Registry

/-!
# Functions without a state

If no function of the registry keeps a state, a reference has the same columns whenever it is
resolved.
-/

namespace TablePlan

variable {σ : Type}

namespace Registry

/-- Every function of the registry is pure. -/
def Pure (registry : Registry σ) : Prop :=
  ∃ functions : List PureFunction, registry.overloads = functions.map PureFunction.toOverload

variable {registry : Registry σ}

theorem Pure.run_eq (pure : registry.Pure) {o : Overload σ} (inside : o ∈ registry.overloads) :
    ∃ result : List Value → Except FunctionError Value,
      ∀ args s, o.run args s = (result args, s) := by
  obtain ⟨functions, are⟩ := pure
  rw [are] at inside
  obtain ⟨f, -, rfl⟩ := List.mem_map.mp inside
  exact ⟨f.run, fun args s => rfl⟩

/-- A call of a pure function has the same result in every state and leaves the state alone. -/
theorem Pure.call_eq (pure : registry.Pure) (func : String) (args : List Value) :
    ∃ result, ∀ s, registry.call func args s = (result, s) := by
  unfold call
  cases found : registry.lookup func args.length with
  | error e => exact ⟨.error e, fun s => rfl⟩
  | ok o =>
      obtain ⟨result, ran⟩ := pure.run_eq (mem_of_lookup found)
      cases outcome : result args with
      | ok v =>
          refine ⟨.ok v, fun s => ?_⟩
          simp only [bind, StateT.bind, ran, outcome]
          rfl
      | error cause =>
          refine ⟨.error (.function func cause), fun s => ?_⟩
          simp only [bind, StateT.bind, ran, outcome]
          rfl

end Registry

namespace Parallel

/-- The same evaluation in two states that functions leave alone. -/
def inStates (s t : σ) : Parallel σ where
  shared _ := True
  left := []
  right := []
  states a b := a = s ∧ b = t

theorem inStates_agrees {registry : Registry σ} (pure : registry.Pure) (s t : σ) :
    (inStates s t).Agrees registry where
  names _ _ := rfl
  calls func args a b same := by
    obtain ⟨result, ran⟩ := pure.call_eq func args
    exact ⟨by rw [ran, ran], by rwa [ran, ran]⟩

end Parallel

/-- An expression comes to the same in every state that functions leave alone. -/
theorem Eval.eval_steady {registry : Registry σ} (pure : registry.Pure) (setting : Setting)
    (e : Expr) (env : Env) (s t : σ) :
    (eval registry setting e ⟨env, s⟩).1 = (eval registry setting e ⟨env, t⟩).1 := by
  obtain ⟨outcome, locals, s', t', left, right, -⟩ :=
    eval_runs (Parallel.inStates_agrees pure s t) (Parallel.all_names (fun _ => trivial) e)
      setting env.vars s t (fun _ _ => trivial) ⟨rfl, rfl⟩
  have unchanged : env.vars ++ [] = env.vars := List.append_nil _
  simp only [Parallel.inStates, unchanged] at left right
  exact (congrArg Prod.fst left).trans (congrArg Prod.fst right).symm

/-! ### Binding -/

/-- The result does not depend on the state that functions keep. -/
def Steady {ε α : Type} (x : ExceptT ε (StateM σ) α) : Prop :=
  ∀ s t, (x.run s).1 = (x.run t).1

namespace Steady

variable {ε α β : Type}

theorem pure (a : α) : Steady (pure a : ExceptT ε (StateM σ) α) :=
  fun _ _ => rfl

theorem throw (e : ε) : Steady (throw e : ExceptT ε (StateM σ) α) :=
  fun _ _ => rfl

theorem bind {x : ExceptT ε (StateM σ) α} {f : α → ExceptT ε (StateM σ) β} (first : Steady x)
    (second : ∀ a, Steady (f a)) : Steady (x >>= f) := by
  intro s t
  have same := first s t
  simp only [ExceptT.run] at same
  simp only [ExceptT.run, Bind.bind, ExceptT.bind, ExceptT.mk, StateT.bind]
  rcases left : x s with ⟨outcome, s'⟩
  rcases right : x t with ⟨outcome', t'⟩
  rw [left, right] at same
  cases same
  cases outcome with
  | error e => rfl
  | ok a => exact second a s' t'

end Steady

theorem run_state {ε α : Type} (x : StateM σ α) (s : σ) :
    (liftM x : ExceptT ε (StateM σ) α) s = (.ok (x s).1, (x s).2) := rfl

/-- What evaluating for the caller comes to. -/
theorem run_evaluateFor (registry : Registry σ) (setting : Setting) (shown e : Expr) (s : σ) :
    (evaluateFor registry setting shown e).run s
      = ((Eval.eval registry setting e ⟨.empty, s⟩).1.mapError
          (ArgumentError.ofEvaluation shown.text),
        (Eval.eval registry setting e ⟨.empty, s⟩).2.state) := by
  rcases h : Eval.eval registry setting e ⟨.empty, s⟩ with ⟨outcome, m⟩
  have ran : Eval.run registry setting e .empty s = ((outcome, m.env), m.state) := by
    unfold Eval.run
    rw [ExceptT.run, h]
  simp only [evaluateFor, ExceptT.run, bind, ExceptT.bind, ExceptT.mk, StateT.bind, run_state,
    ExceptT.bindCont, ran]
  cases outcome <;> rfl

/-- Evaluating for the caller leaves the state alone. -/
theorem state_evaluateFor {registry : Registry σ} (pure : registry.Pure) (setting : Setting)
    (shown e : Expr) (s : σ) : ((evaluateFor registry setting shown e).run s).2 = s := by
  obtain ⟨outcome, locals, s', t', left, -, -, kept, -⟩ :=
    Eval.eval_runs (Parallel.inStates_agrees pure s s) (Parallel.all_names (fun _ => trivial) e)
      setting [] s s (by simp) ⟨rfl, rfl⟩
  have ran : Eval.eval registry setting e ⟨.empty, s⟩ = (outcome, ⟨⟨locals ++ []⟩, s'⟩) := left
  rw [run_evaluateFor, ran]
  exact kept

namespace Reference

variable {registry : Registry σ} {schema : Schema} {scope : Scope}

theorem specifier_steady (pure : registry.Pure) (r : Reference) :
    Steady (r.specifier registry scope) := by
  cases r with
  | static spec => exact .pure spec
  | deferred inner =>
      refine .bind (fun s t => ?_) fun v => ?_
      · rw [run_evaluateFor, run_evaluateFor, Eval.eval_steady pure _ inner .empty s t]
      · split
        · exact .pure _
        · exact .throw _

/-- A reference that is resolved in one state has the same columns in every other. -/
theorem resolve_steady (pure : registry.Pure) (r : Reference) :
    Steady (r.resolve registry schema scope) := by
  refine (specifier_steady pure r).bind fun spec => ?_
  split
  · exact .pure _
  · exact .throw _

end Reference

end TablePlan
