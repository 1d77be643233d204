import TablePlan.Proofs.Eval.Scoping
import TablePlan.Proofs.Plan.Merging

/-!
# Bound functions and their names

Every identifier in the body of a bound function is a parameter, a captured name or a name that an
assignment somewhere in the body binds. The last is not enough to be bound where it is used: the
names that a call can find unbound are local names outside of their scope, and no others.
-/

namespace TablePlan

variable {σ : Type}

namespace Function

/-- The names that the body of a function can use from the start. -/
def visible (f : Function σ) : List String :=
  f.captured.map Prod.fst ++ f.params

/-- A call that fails has failed in the evaluation of the body, unless the number of arguments is
wrong. -/
theorem call_error {f : Function σ} {args : List Value} {s s' : σ} {e : EvalError}
    (h : f.call args s = (.error e, s')) :
    args.length ≠ f.arity ∧ e = .arityMismatch f.arity args.length
      ∨ args.length = f.arity ∧
        ∃ m, Eval.eval f.registry .body f.body ⟨f.env args, s⟩ = (.error e, m) := by
  unfold call at h
  split at h
  · rename_i wrong
    cases h
    exact Or.inl ⟨wrong, rfl⟩
  · rename_i count
    refine Or.inr ⟨not_not.mp count, ?_⟩
    split at h
    · cases h
    · have outcome := congrArg Prod.fst h
      exact ⟨_, Prod.ext outcome rfl⟩

theorem bound_env {f : Function σ} {args : List Value} (count : args.length = f.arity) {n : String}
    (seen : n ∈ f.visible) : ((f.env args).get? n).isSome := by
  have names : ((f.captured ++ f.params.zip args).map Prod.fst) = f.visible := by
    rw [List.map_append, List.map_fst_zip count.ge, visible]
  obtain ⟨v, inside, rfl⟩ := List.mem_map.mp (names ▸ seen)
  rw [env, Env.get?, Env.ofList, Option.isSome_iff_ne_none]
  intro missing
  simpa using List.lookup_eq_none_iff.mp missing v (List.mem_reverse.mpr inside)

/-- What a call raises. -/
theorem call_raises {f : Function σ} {args : List Value} {s s' : σ} {e : EvalError}
    (count : args.length = f.arity) (h : f.call args s = (.error e, s')) :
    e.Raised f.registry (f.body.strays f.visible) f.body.nodes := by
  obtain ⟨wrong, -⟩ | ⟨-, m, failed⟩ := call_error h
  · exact absurd count wrong
  · have body : Eval.Statically f.registry f.body := Eval.eval_scoped f.body
    have raised := body f.visible ⟨f.env args, s⟩ fun n seen => bound_env count seen
    rwa [EvalM.Ensures, failed] at raised

end Function

namespace Expr

theorem mem_foldl_new {used names : List String} {n : String} :
    n ∈ used.foldl (fun names name => if names.contains name then names else names ++ [name]) names
      ↔ n ∈ names ∨ n ∈ used := by
  induction used generalizing names with
  | nil => simp
  | cons name rest ih =>
      rw [List.foldl_cons, ih]
      by_cases old : names.contains name
      · have : name ∈ names := by simpa using old
        grind
      · grind

/-- An identifier that is neither a parameter nor a local name is captured. -/
theorem mem_freeNames {params : List String} {e : Expr} {n : String} (inside : ident n ∈ e.nodes)
    (notParam : n ∉ params) (notLocal : n ∉ e.localNames) : n ∈ e.freeNames params := by
  refine mem_foldl_new.mpr (Or.inr (List.mem_filterMap.mpr ⟨ident n, inside, ?_⟩))
  simp [notParam, notLocal]

theorem mem_boundNames {t : Expr} {n : String} :
    n ∈ t.boundNames ↔ t = ident n ∨ t = splat n
      ∨ ∃ items, t = tuple items ∧ (ident n ∈ items ∨ splat n ∈ items) := by
  cases t
  case tuple items =>
    simp only [boundNames, List.mem_filterMap, reduceCtorEq, false_or, tuple.injEq]
    constructor
    · rintro ⟨item, inside, bound⟩
      split at bound <;> cases bound
      · exact ⟨items, rfl, Or.inl inside⟩
      · exact ⟨items, rfl, Or.inr inside⟩
    · rintro ⟨_, rfl, inside | inside⟩
      · exact ⟨_, inside, rfl⟩
      · exact ⟨_, inside, rfl⟩
  all_goals simp [boundNames, eq_comm]

theorem mem_localNames {e : Expr} {n : String} :
    n ∈ e.localNames ↔ ∃ target value, assign target value ∈ e.nodes ∧ n ∈ target.boundNames := by
  simp only [localNames, List.mem_flatMap]
  constructor
  · rintro ⟨k, inside, bound⟩
    split at bound
    · exact ⟨_, _, inside, bound⟩
    · cases bound
  · rintro ⟨target, value, inside, bound⟩
    exact ⟨_, inside, bound⟩

/-- The identifiers of a renamed expression are renamed identifiers. -/
theorem ident_mem_rename {aliases : List (String × String)} {e : Expr} {n : String}
    (h : ident n ∈ (e.rename aliases).nodes) :
    ∃ m, ident m ∈ e.nodes ∧ n = renamed aliases m := by
  rw [rename_eq_replace] at h
  obtain ⟨k, inside, ⟨answer, answered, there⟩ | ⟨unanswered, rebuilt⟩⟩ := mem_nodes_replace h
  · cases k <;> cases answered
    rename_i m
    obtain ⟨rfl⟩ : ident n = ident (renamed aliases m) := by simpa [nodes] using there
    exact ⟨m, inside, rfl⟩
  · rw [mapParts_eq] at rebuilt
    cases k <;> cases rebuilt
    cases unanswered

/-- A local name that has no alias stays one. -/
theorem mem_localNames_rename {aliases : List (String × String)} {e : Expr} {n : String}
    (unaliased : aliases.lookup n = none) (h : n ∈ e.localNames) :
    n ∈ (e.rename aliases).localNames := by
  obtain ⟨target, value, inside, bound⟩ := mem_localNames.mp h
  have kept : (assign target value).rename aliases
      = assign (target.rename aliases) (value.rename aliases) := by
    rw [rename_eq (by simp), mapParts_eq]
  have named : (ident n).rename aliases = ident n := by
    rw [rename_ident, renamed, unaliased, Option.getD_none]
  have splatted : (splat n).rename aliases = splat n := by
    rw [rename_eq (by simp), mapParts_eq]
  have there : (assign target value).rename aliases ∈ (e.rename aliases).nodes :=
    nodes_rename aliases e ▸ List.mem_map_of_mem inside
  rw [kept] at there
  refine mem_localNames.mpr ⟨_, _, there, mem_boundNames.mpr ?_⟩
  obtain rfl | rfl | ⟨items, rfl, item⟩ := mem_boundNames.mp bound
  · exact Or.inl named
  · exact Or.inr (Or.inl splatted)
  · refine Or.inr (Or.inr ⟨items.map (rename aliases), ?_, ?_⟩)
    · rw [rename_eq (by simp), mapParts_eq]
    · refine item.imp (fun there => ?_) fun there => ?_
      · exact List.mem_map.mpr ⟨_, there, named⟩
      · exact List.mem_map.mpr ⟨_, there, splatted⟩

end Expr

/-- Every identifier of a function is a parameter, a captured name or a local name. -/
theorem Function.MadeOf.resolved {f : Function σ} {registry : Registry σ} {scope : Scope}
    {original : Expr} {sources : Sources} {read : List (String × Selection)}
    (made : f.MadeOf registry scope original sources) (merges : sources.Merges read)
    (parameters : read.map Prod.fst = (original.replaceReferences.run []).2.map Binding.param)
    {n : String} (used : .ident n ∈ f.body.nodes) :
    n ∈ f.params ∨ n ∈ f.body.localNames
      ∨ ∃ v, (n, v) ∈ f.captured ∧ scope.get? n = some v := by
  rw [made.body] at used ⊢
  obtain ⟨m, inside, rfl⟩ := Expr.ident_mem_rename used
  cases merged : sources.aliases.lookup m with
  | some q =>
      rw [Expr.renamed, merged, Option.getD_some, made.params]
      exact Or.inl (merges.alias_kept merged)
  | none =>
      rw [Expr.renamed, merged, Option.getD_none]
      by_cases parameter : m ∈ read.map Prod.fst
      · rw [made.params, merges.names]
        exact Or.inl (List.mem_filter.mpr ⟨parameter, by rw [merged]; rfl⟩)
      · refine Or.inr ?_
        by_cases bound : m ∈ (original.replaceReferences.run []).1.localNames
        · exact Or.inl (Expr.mem_localNames_rename merged bound)
        · have free := Expr.mem_freeNames inside (parameters ▸ parameter) bound
          rw [← made.captures] at free
          obtain ⟨⟨_, v⟩, captured, rfl⟩ := List.mem_map.mp free
          exact Or.inr ⟨v, captured, made.values _ captured⟩

namespace Plan

/-- Bound functions are closed but for the scope of their local names: every identifier is a
parameter, a captured value or a local name, and a call fails to find a name only where a local
name is used outside of its scope. -/
theorem unbound_names_are_local {registry : Registry σ} {call : Call} {plan : Plan σ}
    {schema : Schema} {scope : Scope} {pipeline : Pipeline σ} {s s' : σ}
    (planned : ofCall registry call = .ok plan)
    (bound : (plan.bind schema scope).run s = (.ok pipeline, s')) {t : Triple σ}
    (inside : t ∈ pipeline.triples) :
    (∀ n, .ident n ∈ t.function.body.nodes →
      n ∈ t.function.params ∨ n ∈ t.function.body.localNames
        ∨ ∃ v, (n, v) ∈ t.function.captured ∧ scope.get? n = some v)
    ∧ ∀ args s₁ n s₂, t.function.call args s₁ = (.error (.undefinedVariable n), s₂) →
      n ∈ t.function.body.strays t.function.visible ∧ n ∈ t.function.body.localNames := by
  obtain ⟨kind, index, arg, argument, group, s₁, s₂, planned, bound, inside⟩ :=
    triple_ok planned bound inside
  obtain ⟨p, body, target, selections, sources, sink, function, pairing, -, -, -, -, resolved,
    merges, made, -, -, -, each⟩ := ArgumentPlan.group_ok planned bound
  obtain ⟨k, found⟩ := List.mem_iff_getElem?.mp inside
  obtain ⟨-, rfl, -⟩ := each k t found
  have closed (n) (used : .ident n ∈ t.function.body.nodes) := made.resolved merges
    (List.map_fst_zip (by simp [resolved.length_eq])) used
  refine ⟨closed, fun args s₁ n s₂ failed => ?_⟩
  obtain ⟨-, mismatch⟩ | ⟨count, -⟩ := Function.call_error failed
  · cases mismatch
  · have stray : n ∈ t.function.body.strays t.function.visible := by
      cases Function.call_raises count failed with
      | data h => exact h.elim
      | name h => exact h
    obtain ⟨hidden, used⟩ := Expr.stray_is_ident stray
    refine ⟨stray, ?_⟩
    obtain parameter | bound | ⟨v, captured, -⟩ := closed n used
    · exact absurd (List.mem_append_right _ parameter) hidden
    · exact bound
    · exact absurd (List.mem_append_left _ (List.mem_map_of_mem captured)) hidden

/-- In `begin z = w; w = :a; z end` the name `w` is local, so binding accepts it, and not bound where
it is used, so a call fails. -/
theorem early_use_is_local : ∃ t : Triple Unit,
    t.function.call [.int 1] () = (.error (.undefinedVariable "w"), ())
    ∧ "w" ∈ t.function.body.strays t.function.visible ∧ "w" ∈ t.function.body.localNames := by
  let early : Call := ⟨"transform", ⟨[.assign (.column (.name "y")) (.block
    [.assign (.ident "z") (.ident "w"), .assign (.ident "w") (.column (.name "a")), .ident "z"])],
    []⟩⟩
  let table : Schema := ⟨"t", [⟨"a", .int, true⟩]⟩
  obtain ⟨plan, pipeline, t, planned, bound, inside, failed⟩ :
      ∃ (plan : Plan Unit) (pipeline : Pipeline Unit) (t : Triple Unit),
        ofCall (Registry.empty "1") early = .ok plan
        ∧ (plan.bind table .empty).run () = (.ok pipeline, ()) ∧ t ∈ pipeline.triples
        ∧ t.function.call [.int 1] () = (.error (.undefinedVariable "w"), ()) :=
    ⟨_, _, _, rfl, rfl, List.mem_cons_self, rfl⟩
  exact ⟨t, failed, (unbound_names_are_local planned bound inside).2 _ _ _ _ failed⟩

end Plan

end TablePlan
