import TablePlan.Proofs.Argument.Body
import TablePlan.Proofs.Plan.Scoping

/-!
# Bound functions are well formed

Planning refuses directives and unknown functions, and replaces references by parameters. What it
has checked stays true when binding merges parameters, so a call with one value for each source
raises no error that could have been found without running it.
-/

namespace TablePlan

variable {σ : Type}

/-- An error of how an expression is made, and not of the values it is evaluated with. -/
def EvalError.Structural : EvalError → Prop
  | arityMismatch .. | unboundColumnReference _ => True
  | registry (.functionNotFound _) | registry (.arityMismatch ..) => True
  | e@(unsupported _) => ∃ letters, e = ofDirective letters
  | _ => False

theorem EvalError.OfData.not_structural {e : EvalError} (h : e.OfData) : ¬ e.Structural := by
  cases e with
  | unsupported what =>
      rintro ⟨letters, is⟩
      exact h letters is
  | undefinedVariable | registry | unboundColumnReference | arityMismatch => exact h.elim
  | _ => exact id

/-- A call of a function that is there fails only in the function itself. -/
theorem Registry.call_error {registry : Registry σ} {func : String} {values : List Value}
    {o : Overload σ} (found : registry.lookup func values.length = .ok o) {state : σ}
    {cause : RegistryError} (fails : (registry.call func values state).1 = .error cause) :
    ∃ reason, cause = .function func reason := by
  simp only [call, found] at fails
  cases ran : o.run values state with
  | mk outcome state' =>
      cases outcome with
      | ok v =>
          simp only [bind, StateT.bind, ran] at fails
          cases fails
      | error reason =>
          simp only [bind, StateT.bind, ran] at fails
          cases fails
          exact ⟨reason, rfl⟩

namespace Expr

/-- The registry has a function for a call, of its name and for its number of arguments. -/
def Callable (registry : Registry σ) : Expr → Prop
  | call func args _ => ∃ o, registry.lookup func args.length = .ok o
  | _ => True

theorem Evaluable.mapParts {e : Expr} (h : e.Evaluable) (f : Expr → Expr) :
    (e.mapParts f).Evaluable := by
  obtain ⟨notRef, undirected⟩ := h
  exact ⟨by rw [Expr.mapParts, isReference_withChildren, notRef],
    by rw [Expr.mapParts, isDirected_withChildren, undirected]⟩

theorem Callable.mapParts {registry : Registry σ} {e : Expr} (h : e.Callable registry)
    (f : Expr → Expr) : (e.mapParts f).Callable registry := by
  rw [mapParts_eq]
  cases e
  case call func args dotted => simpa [Callable] using h
  all_goals trivial

end Expr

namespace ArgumentPlan

/-- Every call of a body that is accepted can be made. -/
theorem all_callable {registry : Registry σ} {body : Expr}
    (h : checkCalls registry body = .ok ()) : body.All (Expr.Callable registry) := by
  intro n inside
  have checked := forM_ok h inside
  cases n
  case call func args dotted =>
    obtain ⟨o, found, -⟩ := ok_of_bind checked
    exact ⟨o, ok_of_mapError found⟩
  all_goals trivial

end ArgumentPlan

/-- Evaluating an expression without references and directives, whose calls can be made, raises no
structural error. -/
theorem EvalError.Raised.not_structural {registry : Registry σ} {unbound : List String} {e : Expr}
    {error : EvalError} (h : error.Raised registry unbound e.nodes)
    (evaluable : e.All Expr.Evaluable) (callable : e.All (Expr.Callable registry)) :
    ¬ error.Structural := by
  cases h with
  | data h => exact h.not_structural
  | name h => exact id
  | reference c h is => simp [(evaluable _ h).1] at is
  | directive h => cases (evaluable _ h).2
  | call h count fails =>
      obtain ⟨o, found⟩ := callable _ h
      obtain ⟨reason, rfl⟩ := Registry.call_error (count ▸ found) fails
      exact id

namespace Pairing

/-- Every source gives one name to each element. -/
theorem length_names {sources : List Selection} {sink : Option Selection} {pairing : Pairing}
    {k : Nat} {names : List String} (h : ofSelections sources sink = .ok pairing)
    (found : pairing.sources[k]? = some names) : names.length = sources.length := by
  obtain ⟨-, named⟩ := ofSelections_ok h
  obtain ⟨index, -, given⟩ := exists_of_mem_right named (List.mem_of_getElem? found)
  exact given.length_eq.symm

end Pairing

namespace Plan

/-- Calling a bound function with one value for each of its sources raises no structural error. -/
theorem no_structural_error {registry : Registry σ} {call : Call} {plan : Plan σ}
    {schema : Schema} {scope : Scope} {pipeline : Pipeline σ} {s s' : σ}
    (planned : ofCall registry call = .ok plan)
    (bound : (plan.bind schema scope).run s = (.ok pipeline, s')) {t : Triple σ}
    (inside : t ∈ pipeline.triples) :
    t.function.arity = t.sources.length
    ∧ ∀ args, args.length = t.sources.length → ∀ s₁ e s₂,
      t.function.call args s₁ = (.error e, s₂) → ¬ e.Structural := by
  obtain ⟨kind, index, arg, argument, group, s₁, s₂, planned, bound, inside⟩ :=
    triple_ok planned bound inside
  obtain ⟨p, body, target, selections, sources, sink, function, pairing, peeled, split, -, checked,
    resolved, merges, made, -, -, paired, each⟩ := ArgumentPlan.group_ok planned bound
  obtain ⟨k, found⟩ := List.mem_iff_getElem?.mp inside
  obtain ⟨-, rfl, names⟩ := each k t found
  have arity : t.function.arity = t.sources.length := by
    rw [Function.arity, made.params, List.length_map, Pairing.length_names paired names,
      List.length_map]
  refine ⟨arity, fun args count s₁ e s₂ failed => ?_⟩
  have raised := Function.call_raises (count.trans arity.symm) failed
  have evaluable := Expr.all_evaluable_replaceReferences (ArgumentPlan.undirected_body peeled split)
  refine raised.not_structural ?_ ?_
  · rw [made.body]
    exact evaluable.rename (fun _ => ⟨rfl, rfl⟩) fun _ f h => h.mapParts f
  · rw [made.body, made.registry]
    exact (ArgumentPlan.all_callable checked).rename (fun _ => trivial) fun _ f h => h.mapParts f

/-- The sum of two columns fails on a text for its type and for nothing structural. -/
theorem sum_no_structural_error : ∃ t : Triple Unit, t.function.arity = t.sources.length
    ∧ t.function.call [.int 1, .string "x"] ()
      = (.error (.typeMismatch "+" ["int", "string"]), ())
    ∧ ¬ (EvalError.typeMismatch "+" ["int", "string"]).Structural := by
  let sum : Call := ⟨"transform", ⟨[.assign (.column (.name "y"))
    (.binary .add (.column (.name "a")) (.column (.name "b")) false)], []⟩⟩
  let table : Schema := ⟨"t", [⟨"a", .int, true⟩, ⟨"b", .string, true⟩]⟩
  obtain ⟨plan, pipeline, t, planned, bound, inside, sources, failed⟩ :
      ∃ (plan : Plan Unit) (pipeline : Pipeline Unit) (t : Triple Unit),
        ofCall (Registry.empty "1") sum = .ok plan
        ∧ (plan.bind table .empty).run () = (.ok pipeline, ()) ∧ t ∈ pipeline.triples
        ∧ t.sources = ["a", "b"] ∧ t.function.call [.int 1, .string "x"] ()
          = (.error (.typeMismatch "+" ["int", "string"]), ()) :=
    ⟨_, _, _, rfl, rfl, List.mem_cons_self, rfl, rfl⟩
  have h := no_structural_error planned bound inside
  exact ⟨t, h.1, failed, h.2 _ (by rw [sources]; rfl) _ _ _ failed⟩

end Plan

end TablePlan
