import TablePlan.Plan.Pipeline
import TablePlan.Proofs.Indices

/-!
# What planning and binding come from

A plan and a pipeline determine the steps that made them. Every triple of a pipeline is one of the
triples of an argument plan, and every argument plan is that of one argument of the call.
-/

namespace TablePlan

variable {σ : Type}

/-! ### Planning -/

namespace ArgumentPlan

/-- The steps that plan one argument. -/
theorem ofArgument_ok {registry : Registry σ} {kind : Kind} {index : Nat} {arg : Expr}
    {plan : ArgumentPlan} (h : ofArgument registry kind index arg = .ok plan) :
    ∃ p mode body target, Peeled.ofArgument arg = .ok p
      ∧ p.directives.mode kind.defaultMode = .ok mode
      ∧ bodyAndTarget p = .ok (body, target)
      ∧ refuseColumnTargets body = .ok ()
      ∧ checkCalls registry (body.replaceReferences.run []).1 = .ok ()
      ∧ plan = ⟨index, arg.text, p.directives, (body.replaceReferences.run []).2,
        Template.ofBody ((body.replaceReferences.run []).2.map Binding.param)
          (body.replaceReferences.run []).1 mode p.directives.passMissing, target⟩ := by
  obtain ⟨p, peeled, h⟩ := ok_of_bind h
  obtain ⟨mode, chosen, h⟩ := ok_of_bind h
  obtain ⟨⟨body, target⟩, split, h⟩ := ok_of_bind h
  obtain ⟨⟨⟩, allowed, h⟩ := ok_of_bind h
  obtain ⟨⟨⟩, checked, h⟩ := ok_of_bind h
  exact ⟨p, mode, body, target, peeled, chosen, split, allowed, checked, by cases h; rfl⟩

end ArgumentPlan

namespace Plan

/-- Every argument has its plan, made with its position. -/
theorem planArguments_ok {registry : Registry σ} {kind : Kind} {index : Nat} {args : List Expr}
    {plans : List ArgumentPlan} (h : planArguments registry kind index args = .ok plans) :
    List.Forall₂ (fun arg plan => ArgumentPlan.ofArgument registry kind arg.2 arg.1 = .ok plan)
      (args.zipIdx index) plans := by
  induction args generalizing index plans with
  | nil =>
      cases h
      exact .nil
  | cons arg rest ih =>
      obtain ⟨plan, first, h⟩ := ok_of_bind h
      obtain ⟨plans', later, h⟩ := ok_of_bind h
      cases h
      exact .cons (ok_of_mapError first) (ih later)

/-- The steps that plan a call. -/
theorem ofCall_ok {registry : Registry σ} {call : Call} {plan : Plan σ}
    (h : ofCall registry call = .ok plan) :
    ∃ kind args, call.kind? = .ok kind ∧ expandBlocks 0 call.arguments.positional = .ok args
      ∧ planArguments registry kind 0 args = .ok plan.arguments ∧ plan.registry = registry
      ∧ plan.options = call.arguments.options := by
  obtain ⟨kind, named, h⟩ := ok_of_bind h
  obtain ⟨args, expanded, h⟩ := ok_of_bind h
  obtain ⟨plans, planned, h⟩ := ok_of_bind h
  cases h
  exact ⟨kind, args, ok_of_mapError named, expanded, planned, rfl, rfl⟩

end Plan

/-! ### Binding -/

namespace Pairing

theorem common_of_ok {shapes : List Shape} {shape : Shape} (h : commonShape shapes = .ok shape) :
    Shape.common? shapes = some shape := by
  unfold commonShape at h
  split at h <;> cases h
  assumption

/-- The shape in which sources are paired with an optional sink. -/
def IsShape (sources : List Selection) (sink : Option Selection) (shape : Shape) : Prop :=
  ∃ sourceShape, Shape.common? (sources.map Selection.shape) = some sourceShape
    ∧ Shape.common? (sourceShape :: (sink.map (flattened sourceShape)).toList.map Selection.shape)
      = some shape

/-- The names of paired sources follow the indices of the shape. -/
theorem ofSelections_ok {sources : List Selection} {sink : Option Selection} {pairing : Pairing}
    (h : ofSelections sources sink = .ok pairing) :
    IsShape sources sink pairing.shape
      ∧ List.Forall₂ (fun index names => List.Forall₂ (fun s name => nameAt s index = .ok name)
        sources names) (Shape.indices pairing.shape) pairing.sources := by
  obtain ⟨sourceShape, common, h⟩ := ok_of_bind h
  extract_lets sink' finish at h
  obtain ⟨shape, joined, h⟩ : ∃ shape,
      Shape.common? (sourceShape :: sink'.toList.map Selection.shape) = some shape
        ∧ finish shape = .ok pairing := by
    clear_value finish
    clear_value sink'
    cases sink' with
    | some s =>
        obtain ⟨shape, joined, h⟩ := ok_of_bind h
        exact ⟨shape, common_of_ok joined, h⟩
    | none => exact ⟨sourceShape, by simp [Shape.common?], h⟩
  obtain ⟨indices, listed, h⟩ := ok_of_bind h
  obtain ⟨-, rfl⟩ := fits_of_indicesOf listed
  obtain ⟨names, named, h⟩ := ok_of_bind h
  obtain ⟨sinks, -, h⟩ := ok_of_bind h
  cases h
  refine ⟨⟨sourceShape, common_of_ok common, joined⟩, ?_⟩
  exact (mapM_ok_iff.mp named).imp fun index names given => mapM_ok_iff.mp given

end Pairing

namespace ArgumentPlan

/-- The columns that a target names for the caller, if it names any. -/
def SinkOf (registry : Registry σ) (schema : Schema) (scope : Scope) :
    Target → Option Selection → Prop
  | .explicit e, sink => ∃ v selection s s',
    (evaluateFor registry (.sink scope schema) e e).run s = (.ok v, s')
      ∧ Sink.selection schema e v = .ok selection ∧ sink = some selection
  | _, sink => sink = none

/-- The steps that bind one argument. -/
theorem bind_ok {plan : ArgumentPlan} {registry : Registry σ} {schema : Schema} {scope : Scope}
    {triples : List (Triple σ)} {s s' : σ}
    (h : (plan.bind registry schema scope).run s = (.ok triples, s')) :
    ∃ sources s₁ function sink pairing sinks,
      (Sources.ofBindings registry schema scope ⟨[], []⟩ plan.bindings).run s = (.ok sources, s₁)
      ∧ (plan.template.mergeParams sources.aliases).instantiate registry scope = .ok function
      ∧ SinkOf registry schema scope plan.target sink
      ∧ Pairing.ofSelections (sources.kept.map Prod.snd) sink = .ok pairing
      ∧ triples = (pairing.sources.zip sinks).map fun (names, sink) =>
        ⟨plan.index, names, function, plan.sinkOf
          (plan.template.mergeParams sources.aliases).naming names sink⟩ := by
  obtain ⟨sources, s₁, merged, h⟩ := run_of_bind h
  obtain ⟨function, s₂, made, h⟩ := run_of_bind h
  extract_lets finish at h
  obtain ⟨sink, s₃, named, h⟩ : ∃ sink s₃, SinkOf registry schema scope plan.target sink
      ∧ (finish sink).run s₃ = (.ok triples, s') := by
    split at h
    · rename_i e explicit
      obtain ⟨v, s₃, evaluated, h⟩ := run_of_bind h
      obtain ⟨selection, s₄, selected, h⟩ := run_of_bind h
      rw [explicit]
      exact ⟨_, s₄, ⟨v, selection, s₂, s₃, evaluated, (run_of_lift selected).1, rfl⟩, h⟩
    · rename_i implicit
      refine ⟨_, s₂, ?_, h⟩
      cases target : plan.target with
      | explicit e => exact absurd target (implicit e)
      | _ => rfl
  obtain ⟨pairing, s₄, paired, h⟩ := run_of_bind h
  obtain ⟨rfl, -⟩ := run_of_pure h
  exact ⟨sources, s₁, function, sink, pairing, _, merged, (run_of_lift made).1, named,
    (run_of_lift paired).1, rfl⟩

theorem index_of_ofArgument {registry : Registry σ} {kind : Kind} {index : Nat} {arg : Expr}
    {plan : ArgumentPlan} (h : ofArgument registry kind index arg = .ok plan) :
    plan.index = index := by
  obtain ⟨p, mode, body, target, -, -, -, -, -, rfl⟩ := ofArgument_ok h
  rfl

theorem argument_of_bind {plan : ArgumentPlan} {registry : Registry σ} {schema : Schema}
    {scope : Scope} {triples : List (Triple σ)} {s s' : σ}
    (h : (plan.bind registry schema scope).run s = (.ok triples, s')) {t : Triple σ}
    (inside : t ∈ triples) : t.argument = plan.index := by
  obtain ⟨sources, s₁, function, sink, pairing, sinks, -, -, -, -, rfl⟩ := bind_ok h
  obtain ⟨names, -, rfl⟩ := List.mem_map.mp inside
  rfl

end ArgumentPlan

namespace Plan

/-- The triples of several arguments are those of one argument after another. -/
theorem bindArguments_ok {registry : Registry σ} {schema : Schema} {scope : Scope}
    {plans : List ArgumentPlan} {triples : List (Triple σ)} {s s' : σ}
    (h : (bindArguments registry schema scope plans).run s = (.ok triples, s')) :
    ∃ groups, triples = groups.flatten ∧ List.Forall₂ (fun plan group => ∃ s₁ s₂,
      (plan.bind registry schema scope).run s₁ = (.ok group, s₂)) plans groups := by
  induction plans generalizing s triples with
  | nil =>
      obtain ⟨rfl, -⟩ := run_of_pure h
      exact ⟨[], rfl, .nil⟩
  | cons plan rest ih =>
      obtain ⟨result, s₁, bound, h⟩ := run_of_bind h
      obtain ⟨group, s₂, ok, h⟩ := run_of_bind h
      obtain ⟨others, s₃, later, h⟩ := run_of_bind h
      obtain ⟨rfl, rfl⟩ := run_of_pure h
      obtain ⟨groups, rfl, each⟩ := ih later
      refine ⟨group :: groups, rfl, .cons ⟨s, s₁, ?_⟩ each⟩
      rw [← ok_of_mapError (run_of_lift ok).1]
      cases bound
      rfl

/-- The triples of a pipeline are those of the arguments of its plan. -/
theorem bind_ok {plan : Plan σ} {schema : Schema} {scope : Scope} {pipeline : Pipeline σ}
    {s s' : σ} (h : (plan.bind schema scope).run s = (.ok pipeline, s')) :
    ∃ groups, pipeline.triples = groups.flatten ∧ List.Forall₂ (fun argument group => ∃ s₁ s₂,
      (argument.bind plan.registry schema scope).run s₁ = (.ok group, s₂))
      plan.arguments groups := by
  obtain ⟨triples, s₁, bound, h⟩ := run_of_bind h
  obtain ⟨options, s₂, -, h⟩ := run_of_bind h
  obtain ⟨rfl, -⟩ := run_of_pure h
  exact bindArguments_ok bound

end Plan

/-- The triples of the argument at a position. -/
def Pipeline.triplesOf (pipeline : Pipeline σ) (position : Nat) : List (Triple σ) :=
  pipeline.triples.filter fun t => t.argument == position

namespace Plan

theorem filter_flatten_at {groups : List (List (Triple σ))} {first : Nat}
    (numbered : ∀ i group, groups[i]? = some group → ∀ t ∈ group, t.argument = first + i)
    (position : Nat) :
    groups.flatten.filter (fun t => t.argument == first + position)
      = (groups[position]?).getD [] := by
  induction groups generalizing first position with
  | nil => simp
  | cons group rest ih =>
      have here : ∀ t ∈ group, t.argument = first := fun t inside => numbered 0 group rfl t inside
      have later (i : Nat) (other : List (Triple σ)) (found : rest[i]? = some other) :
          ∀ t ∈ other, t.argument = first + 1 + i := by
        intro t inside
        have := numbered (i + 1) other found t inside
        omega
      rw [List.flatten_cons, List.filter_append]
      cases position with
      | zero =>
          have none : rest.flatten.filter (fun t => t.argument == first + 0) = [] := by
            refine List.filter_eq_nil_iff.mpr fun t inside => ?_
            obtain ⟨other, listed, inside⟩ := List.mem_flatten.mp inside
            obtain ⟨i, found⟩ := List.mem_iff_getElem?.mp listed
            have := later i other found t inside
            simp only [beq_iff_eq]
            omega
          have all : group.filter (fun t => t.argument == first + 0) = group :=
            List.filter_eq_self.mpr fun t inside => by simp [here t inside]
          rw [none, all]
          simp
      | succ position =>
          have none : group.filter (fun t => t.argument == first + (position + 1)) = [] := by
            refine List.filter_eq_nil_iff.mpr fun t inside => ?_
            have := here t inside
            simp only [beq_iff_eq]
            omega
          have shifted : first + (position + 1) = first + 1 + position := by omega
          rw [none, shifted, ih later]
          simp

/-- The triples of an argument are those of its plan. -/
theorem triplesOf_ok {registry : Registry σ} {call : Call} {plan : Plan σ} {schema : Schema}
    {scope : Scope} {pipeline : Pipeline σ} {s s' : σ} (planned : ofCall registry call = .ok plan)
    (bound : (plan.bind schema scope).run s = (.ok pipeline, s')) {position k : Nat} {t : Triple σ}
    (found : (pipeline.triplesOf position)[k]? = some t) :
    ∃ kind args arg argument group s₁ s₂, call.kind? = .ok kind
      ∧ expandBlocks 0 call.arguments.positional = .ok args ∧ args[position]? = some arg
      ∧ ArgumentPlan.ofArgument registry kind position arg = .ok argument
      ∧ (argument.bind registry schema scope).run s₁ = (.ok group, s₂) ∧ group[k]? = some t := by
  obtain ⟨kind, args, named, expanded, arguments, sameRegistry, -⟩ := ofCall_ok planned
  obtain ⟨groups, flat, each⟩ := bind_ok bound
  have planOf {i : Nat} {argument : ArgumentPlan} (there : plan.arguments[i]? = some argument) :
      ∃ arg, args[i]? = some arg ∧ ArgumentPlan.ofArgument registry kind i arg = .ok argument := by
    obtain ⟨⟨arg, index⟩, listed, planned⟩ :=
      getElem?_of_forall₂ (planArguments_ok arguments) there
    rw [List.getElem?_zipIdx, Option.map_eq_some_iff] at listed
    obtain ⟨arg, listed, same⟩ := listed
    cases same
    rw [Nat.zero_add] at planned
    exact ⟨_, listed, planned⟩
  have numbered : ∀ i group, groups[i]? = some group → ∀ t ∈ group, t.argument = 0 + i := by
    intro i group listed t inside
    obtain ⟨argument, there, s₁, s₂, bound⟩ := getElem?_of_forall₂ each listed
    obtain ⟨arg, -, planned⟩ := planOf there
    rw [ArgumentPlan.argument_of_bind bound inside, ArgumentPlan.index_of_ofArgument planned,
      Nat.zero_add]
  have own := filter_flatten_at numbered position
  rw [Nat.zero_add, ← flat] at own
  rw [Pipeline.triplesOf, own] at found
  cases listed : groups[position]? with
  | none =>
      rw [listed] at found
      cases found
  | some group =>
      rw [listed] at found
      obtain ⟨argument, there, s₁, s₂, bound⟩ := getElem?_of_forall₂ each listed
      obtain ⟨arg, original, planned⟩ := planOf there
      rw [sameRegistry] at bound
      exact ⟨kind, args, arg, argument, group, s₁, s₂, named, expanded, original, planned, bound,
        found⟩

/-- Every triple is one of an argument. -/
theorem triple_ok {registry : Registry σ} {call : Call} {plan : Plan σ} {schema : Schema}
    {scope : Scope} {pipeline : Pipeline σ} {s s' : σ} (planned : ofCall registry call = .ok plan)
    (bound : (plan.bind schema scope).run s = (.ok pipeline, s')) {t : Triple σ}
    (inside : t ∈ pipeline.triples) :
    ∃ kind index arg argument group s₁ s₂,
      ArgumentPlan.ofArgument registry kind index arg = .ok argument
      ∧ (argument.bind registry schema scope).run s₁ = (.ok group, s₂) ∧ t ∈ group := by
  have own : t ∈ pipeline.triplesOf t.argument := List.mem_filter.mpr ⟨inside, by simp⟩
  obtain ⟨k, found⟩ := List.mem_iff_getElem?.mp own
  obtain ⟨kind, args, arg, argument, group, s₁, s₂, -, -, -, planned, bound, there⟩ :=
    triplesOf_ok planned bound found
  exact ⟨kind, _, arg, argument, group, s₁, s₂, planned, bound, List.mem_of_getElem? there⟩

end Plan

end TablePlan
