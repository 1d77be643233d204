import TablePlan.Proofs.Expr.Decoding
import TablePlan.Proofs.Plan.Merging
import TablePlan.Proofs.Plan.Summary

/-!
# What a fingerprint tells apart

The fingerprint of a pipeline is taken of the text of its summary. Pipelines whose summaries have
the same text have triples with the same sources, sinks and function summaries. The functions can
still differ in the values they have captured, which a summary leaves out, and in a body that its
text does not show; they differ in nothing else.
-/

namespace TablePlan

variable {σ : Type}

namespace Function

/-- A function whose body is known from its text. -/
def Legible (f : Function σ) : Prop :=
  f.body.Legible .statement

/-- Legible functions are determined by their summary, their registry and the values they have
captured. -/
theorem eq_of_summary {f f' : Function σ} (legible : f.Legible) (legible' : f'.Legible)
    (same : f.summary = f'.summary) (registry : f.registry = f'.registry)
    (captured : f.captured = f'.captured) : f = f' := by
  obtain ⟨params, body, mode, passMissing, values, functions⟩ := f
  obtain ⟨params', body', mode', passMissing', values', functions'⟩ := f'
  obtain ⟨rfl, texts, rfl, rfl⟩ := FunctionSummary.mk.inj same
  obtain rfl : body = body' := legible.eq_of_text legible' texts
  obtain rfl : functions = functions' := registry
  obtain rfl : values = values' := captured
  rfl

end Function

namespace Plan

/-- Bound functions call the functions of the registry that the call was planned with. -/
theorem registry_of_triple {registry : Registry σ} {call : Call} {plan : Plan σ} {schema : Schema}
    {scope : Scope} {pipeline : Pipeline σ} {s s' : σ} (planned : ofCall registry call = .ok plan)
    (bound : (plan.bind schema scope).run s = (.ok pipeline, s')) {t : Triple σ}
    (inside : t ∈ pipeline.triples) : t.function.registry = registry := by
  obtain ⟨kind, index, arg, argument, group, s₁, s₂, planned, bound, inside⟩ :=
    triple_ok planned bound inside
  obtain ⟨p, body, target, selections, sources, sink, function, pairing, -, -, -, -, -, -, made, -,
    -, -, each⟩ := ArgumentPlan.group_ok planned bound
  obtain ⟨k, found⟩ := List.mem_iff_getElem?.mp inside
  obtain ⟨-, rfl, -⟩ := each k t found
  exact made.registry

/-- Pipelines of one registry whose summaries have the same text agree triple by triple in sources,
sink and summary of the function. Functions with legible bodies give the same results if they have
captured the same values. -/
theorem equal_texts_equal_functions {registry : Registry σ} {call call' : Call}
    {plan plan' : Plan σ} {schema schema' : Schema} {scope scope' : Scope}
    {pipeline pipeline' : Pipeline σ} {s₁ s₂ s₁' s₂' : σ}
    (planned : ofCall registry call = .ok plan)
    (bound : (plan.bind schema scope).run s₁ = (.ok pipeline, s₂))
    (planned' : ofCall registry call' = .ok plan')
    (bound' : (plan'.bind schema' scope').run s₁' = (.ok pipeline', s₂'))
    (same : pipeline.summary.text = pipeline'.summary.text) :
    pipeline.triples.length = pipeline'.triples.length
    ∧ ∀ (k : Nat) (t t' : Triple σ), pipeline.triples[k]? = some t →
      pipeline'.triples[k]? = some t' → t.argument = t'.argument ∧ t.sources = t'.sources
        ∧ t.sink = t'.sink ∧ t.function.summary = t'.function.summary
        ∧ (t.function.Legible → t'.function.Legible → t.function.captured = t'.function.captured →
          ∀ args, t.function.call args = t'.function.call args) := by
  have summaries : pipeline.triples.map Triple.summary = pipeline'.triples.map Triple.summary :=
    (Summary.eq_of_text same).2.2.2
  refine ⟨by simpa using congrArg List.length summaries, fun k t t' found found' => ?_⟩
  have here := congrArg (fun triples => triples[k]?) summaries
  simp only [List.getElem?_map, found, found', Option.map_some, Option.some.injEq] at here
  obtain ⟨arguments, sources, functions, sinks⟩ := TripleSummary.mk.inj here
  refine ⟨arguments, sources, sinks, functions, fun legible legible' captured args => ?_⟩
  have registries : t.function.registry = t'.function.registry :=
    (registry_of_triple planned bound (List.mem_of_getElem? found)).trans
      (registry_of_triple planned' bound' (List.mem_of_getElem? found')).symm
  rw [Function.eq_of_summary legible legible' functions registries captured]

/-- A column that the scope names gives the same function as a column written in the call. -/
theorem named_column_same_function : ∃ t t' : Triple Unit, t.sources = ["a"] ∧ t'.sources = ["a"]
    ∧ ∀ args, t.function.call args = t'.function.call args := by
  let sum (column : Expr) : Call := ⟨"transform", ⟨[.assign (.column (.name "y"))
    (.binary .add column (.ident "k") false)], []⟩⟩
  let table : Schema := ⟨"t", [⟨"a", .int, true⟩]⟩
  let scope : Scope := Env.ofList [("k", .int 1), ("c", .string "a")]
  let body : Expr := .binary .add (.ident "%col1") (.ident "k") false
  obtain ⟨plan, pipeline, t, plan', pipeline', t', planned, bound, planned', bound', same, found,
      found', sources, is, is', captured⟩ :
      ∃ (plan : Plan Unit) (pipeline : Pipeline Unit) (t : Triple Unit) (plan' : Plan Unit)
        (pipeline' : Pipeline Unit) (t' : Triple Unit),
        ofCall (Registry.empty "1") (sum (.column (.name "a"))) = .ok plan
        ∧ (plan.bind table scope).run () = (.ok pipeline, ())
        ∧ ofCall (Registry.empty "1") (sum (.interpolated (.ident "c"))) = .ok plan'
        ∧ (plan'.bind table scope).run () = (.ok pipeline', ())
        ∧ pipeline.summary = pipeline'.summary
        ∧ pipeline.triples[0]? = some t ∧ pipeline'.triples[0]? = some t' ∧ t.sources = ["a"]
        ∧ t.function.body = body ∧ t'.function.body = body
        ∧ t.function.captured = t'.function.captured :=
    ⟨_, _, _, _, _, _, rfl, rfl, rfl, rfl, rfl, rfl, rfl, rfl, rfl, rfl, rfl⟩
  have legible : body.Legible .statement := by
    have param : Expr.IsWord "%col1" := ⟨⟨'%', _, rfl, .inr rfl⟩, by decide, by decide⟩
    have constant : Expr.IsWord "k" := ⟨⟨'k', _, rfl, by decide⟩, by decide, by decide⟩
    exact .plain (.of_atom (.binary _ (.of_atom (.ident param)) (.of_atom (.ident constant)) _))
  have h := equal_texts_equal_functions planned bound planned' bound' (by rw [same])
  obtain ⟨-, sameSources, -, -, agree⟩ := h.2 0 t t' found found'
  refine ⟨t, t', sources, sameSources ▸ sources, agree ?_ ?_ captured⟩
  · rwa [Function.Legible, is]
  · rwa [Function.Legible, is']

end Plan

end TablePlan
