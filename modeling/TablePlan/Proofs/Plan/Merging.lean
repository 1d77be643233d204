import TablePlan.Proofs.Function.Merging
import TablePlan.Proofs.Function.References
import TablePlan.Proofs.Plan.Inversion

/-!
# Merging parameters

Parameters that read the same columns are merged with the first of them. What is kept is every
parameter without an alias, in order, and the columns of a merged parameter are those of its alias.
All triples of an argument share the function that this makes of its body.
-/

namespace TablePlan

variable {σ : Type}

namespace Sources

/-- What is kept and merged once the parameters in `read` are known to read these columns. -/
structure Merges (s : Sources) (read : List (String × Selection)) : Prop where
  names : s.kept.map Prod.fst = (read.map Prod.fst).filter fun p => (s.aliases.lookup p).isNone
  merged : ∀ a ∈ s.aliases, a.1 ∈ read.map Prod.fst
  found : ∀ r ∈ read, ((s.aliases.lookup r.1).getD r.1, r.2) ∈ s.kept
  kept : ∀ k ∈ s.kept, k ∈ read

theorem merges_nil : Merges ⟨[], []⟩ [] :=
  ⟨rfl, by simp, by simp, by simp⟩

theorem lookup_append_single {aliases : List (String × String)} {p q k : String} :
    (aliases ++ [(p, k)]).lookup q
      = (aliases.lookup q).or (if q = p then some k else none) := by
  rw [List.lookup_append]
  by_cases same : q = p
  · simp [same]
  · simp [List.lookup_cons, same, beq_eq_false_iff_ne.mpr same]

namespace Merges

variable {s : Sources} {read : List (String × Selection)}

theorem lookup_fresh (h : s.Merges read) {p : String} (fresh : p ∉ read.map Prod.fst) :
    s.aliases.lookup p = none := by
  rw [List.lookup_eq_none_iff]
  intro a listed
  have other : p ≠ a.1 := fun same => fresh (same ▸ h.merged a listed)
  simpa using other

/-- A merged parameter is replaced by one that is kept. -/
theorem alias_kept (h : s.Merges read) {p q : String} (merged : s.aliases.lookup p = some q) :
    q ∈ s.kept.map Prod.fst := by
  have listed : p ∈ read.map Prod.fst := by
    by_contra fresh
    rw [h.lookup_fresh fresh] at merged
    cases merged
  obtain ⟨r, inside, rfl⟩ := List.mem_map.mp listed
  have found := h.found r inside
  rw [merged] at found
  exact List.mem_map_of_mem found

/-- One more parameter is kept, or merged with one that reads the same columns. -/
theorem add (h : s.Merges read) {p : String} {selection : Selection}
    (fresh : p ∉ read.map Prod.fst) :
    (s.add p selection).Merges (read ++ [(p, selection)]) := by
  have unaliased := h.lookup_fresh fresh
  unfold Sources.add
  split
  · rename_i k same
    have kept := List.mem_of_find?_eq_some same
    have columns : k.2 = selection := by simpa using List.find?_some same
    have others {q : String} (seen : q ∈ read.map Prod.fst) :
        (s.aliases ++ [(p, k.1)]).lookup q = s.aliases.lookup q := by
      have other : q ≠ p := fun is => fresh (is ▸ seen)
      rw [lookup_append_single, if_neg other, Option.or_none]
    constructor
    · have last : ((s.aliases ++ [(p, k.1)]).lookup p).isNone = false := by
        rw [lookup_append_single, unaliased]
        simp
      rw [List.map_append, List.filter_append, h.names]
      simp only [List.map_cons, List.map_nil, List.filter_cons, last, List.filter_nil]
      rw [if_neg (by simp), List.append_nil]
      refine List.filter_congr fun q seen => ?_
      rw [others seen]
    · intro a listed
      obtain old | rfl := by simpa using listed
      · simpa using Or.inl (by simpa using h.merged a old)
      · simp
    · intro r listed
      obtain old | rfl := by simpa using listed
      · rw [others (List.mem_map_of_mem old)]
        exact h.found r old
      · rw [lookup_append_single, unaliased, ← columns]
        simpa using kept
    · exact fun k listed => List.mem_append_left _ (h.kept k listed)
  · constructor
    · simp [List.filter_append, h.names, unaliased]
    · intro a listed
      simpa using Or.inl (by simpa using h.merged a listed)
    · intro r listed
      obtain old | rfl := by simpa using listed
      · exact List.mem_append_left _ (h.found r old)
      · simp [unaliased]
    · intro k listed
      obtain old | rfl := by simpa using listed
      · exact List.mem_append_left _ (h.kept k old)
      · simp

end Merges

/-- Every binding reads the columns of its reference. -/
theorem ofBindings_ok {registry : Registry σ} {schema : Schema} {scope : Scope}
    {bindings : List Binding} {s sources : Sources} {read : List (String × Selection)}
    {state state' : σ} (start : s.Merges read)
    (distinct : (read.map Prod.fst ++ bindings.map Binding.param).Nodup)
    (h : (ofBindings registry schema scope s bindings).run state = (.ok sources, state')) :
    ∃ selections, List.Forall₂ (fun b selection => ∃ s₁ s₂,
        (b.reference.resolve registry schema scope).run s₁ = (.ok selection, s₂)) bindings selections
      ∧ sources.Merges (read ++ (bindings.map Binding.param).zip selections) := by
  induction bindings generalizing s read state with
  | nil =>
      obtain ⟨rfl, -⟩ := run_of_pure h
      exact ⟨[], .nil, by simpa using start⟩
  | cons b rest ih =>
      obtain ⟨selection, s₁, first, h⟩ := run_of_bind h
      have fresh : b.param ∉ read.map Prod.fst := by
        intro seen
        rw [List.map_cons, List.nodup_append] at distinct
        exact distinct.2.2 _ seen _ List.mem_cons_self rfl
      obtain ⟨selections, each, merges⟩ := ih (start.add fresh) (by simpa using distinct) h
      exact ⟨selection :: selections, .cons ⟨state, s₁, first⟩ each, by simpa using merges⟩

end Sources

/-- The function is made of a body before its references are replaced, with these parameters kept
and merged, in the scope of the caller. -/
structure Function.MadeOf (f : Function σ) (registry : Registry σ) (scope : Scope) (original : Expr)
    (sources : Sources) : Prop where
  registry : f.registry = registry
  body : f.body = (original.replaceReferences.run []).1.rename sources.aliases
  params : f.params = sources.kept.map Prod.fst
  captures : f.captured.map Prod.fst = (original.replaceReferences.run []).1.freeNames
    ((original.replaceReferences.run []).2.map Binding.param)
  values : ∀ v ∈ f.captured, scope.get? v.1 = some v.2

/-- The function that a body makes once its parameters are merged. -/
theorem Function.madeOf {f : Function σ} {registry : Registry σ} {scope : Scope} {body : Expr}
    {sources : Sources} {selections : List Selection} {mode : Mode} {passMissing : Bool}
    (count : (body.replaceReferences.run []).2.length = selections.length)
    (merges : sources.Merges (((body.replaceReferences.run []).2.map Binding.param).zip selections))
    (made : ((Template.ofBody ((body.replaceReferences.run []).2.map Binding.param)
      (body.replaceReferences.run []).1 mode passMissing).mergeParams sources.aliases).instantiate
        registry scope = .ok f) :
    f.MadeOf registry scope body sources ∧ f.mode = mode ∧ f.passMissing = passMissing := by
  obtain ⟨params, sameBody, sameMode, missing, sameRegistry, captures, values⟩ :=
    Template.instantiate_ok made
  rw [Template.mode_mergeParams] at sameMode
  rw [Template.passMissing_mergeParams] at missing
  refine ⟨⟨sameRegistry, ?_, ?_, ?_, values⟩, sameMode, missing⟩
  · rw [sameBody, Template.body_mergeParams]
    rfl
  · rw [params, Template.params_mergeParams, merges.names]
    simp [Template.ofBody, List.map_fst_zip, count]
  · rw [captures, Template.captures_mergeParams]
    rfl

namespace ArgumentPlan

/-- What the triples of an argument are made of, from the argument on. -/
theorem group_ok {registry : Registry σ} {kind : Kind} {index : Nat} {arg : Expr}
    {plan : ArgumentPlan} {schema : Schema} {scope : Scope} {group : List (Triple σ)} {s s' : σ}
    (planned : ofArgument registry kind index arg = .ok plan)
    (bound : (plan.bind registry schema scope).run s = (.ok group, s')) :
    ∃ p body target selections sources sink function pairing,
      Peeled.ofArgument arg = .ok p ∧ bodyAndTarget p = .ok (body, target)
      ∧ refuseColumnTargets body = .ok ()
      ∧ checkCalls registry (body.replaceReferences.run []).1 = .ok ()
      ∧ List.Forall₂ (fun b selection => ∃ s₁ s₂,
          (b.reference.resolve registry schema scope).run s₁ = (.ok selection, s₂))
        (body.replaceReferences.run []).2 selections
      ∧ sources.Merges (((body.replaceReferences.run []).2.map Binding.param).zip selections)
      ∧ Function.MadeOf function registry scope body sources
      ∧ (p.directives.mode kind.defaultMode = .ok function.mode
        ∧ function.passMissing = p.directives.passMissing)
      ∧ SinkOf registry schema scope target sink
      ∧ Pairing.ofSelections (sources.kept.map Prod.snd) sink = .ok pairing
      ∧ ∀ (k : Nat) (t : Triple σ), group[k]? = some t →
        t.argument = index ∧ t.function = function ∧ pairing.sources[k]? = some t.sources := by
  obtain ⟨p, mode, body, target, peeled, chosen, split, refused, checked, rfl⟩ :=
    ofArgument_ok planned
  obtain ⟨sources, s₁, function, sink, pairing, sinks, read, made, named, paired, rfl⟩ :=
    bind_ok bound
  have numbered := (Expr.replaceReferences_numbered body).nodup
  obtain ⟨selections, resolved, merges⟩ := Sources.ofBindings_ok Sources.merges_nil
    (by simpa using numbered) read
  obtain ⟨makes, sameMode, missing⟩ := Function.madeOf resolved.length_eq merges made
  refine ⟨p, body, target, selections, sources, sink, function, pairing, peeled, split, refused,
    checked, resolved, by simpa using merges, makes, ⟨by rw [chosen, sameMode], missing⟩,
    named, paired, ?_⟩
  · intro k t there
    rw [List.getElem?_map, Option.map_eq_some_iff] at there
    obtain ⟨⟨names, sink⟩, zipped, rfl⟩ := there
    exact ⟨rfl, rfl, (List.getElem?_zip_eq_some.mp zipped).1⟩

end ArgumentPlan

end TablePlan
