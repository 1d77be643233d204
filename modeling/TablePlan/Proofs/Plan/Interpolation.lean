import TablePlan.Proofs.Indices
import TablePlan.Proofs.Plan.Inlining

/-!
# Bound functions by the columns they read

A bound function has one parameter for each of the columns that its argument reads, however these
are written. So its results follow from the columns of the references, and interpolating the name
of a column gives the same triples as writing it.
-/

namespace TablePlan

variable {σ : Type}

/-- A selection of no dimensions is that of a single name. -/
theorem Selection.eq_scalar {selection : Selection}
    (count : selection.names.length = Shape.size selection.shape) (point : selection.shape = []) :
    ∃ name, selection = scalar name := by
  obtain ⟨names, shape⟩ := selection
  obtain rfl : shape = [] := point
  obtain ⟨name, rfl⟩ := List.length_eq_one_iff.mp count
  exact ⟨name, rfl⟩

/-! ### Functions of columns -/

/-- The columns of a reference are as many as their shape has elements. -/
theorem Reference.size_of_columns {registry : Registry σ} {schema : Schema} {scope : Scope} {s : σ}
    {r : Reference} {selection : Selection}
    (h : r.columns registry schema scope s = .ok selection) :
    selection.names.length = Shape.size selection.shape := by
  have ran : (r.resolve registry schema scope).run s
      = (.ok selection, ((r.resolve registry schema scope).run s).2) := Prod.ext h rfl
  obtain ⟨spec, s₁, -, resolved⟩ := run_of_bind ran
  cases found : spec.resolve schema with
  | error e =>
      rw [found] at resolved
      cases resolved
  | ok own =>
      rw [found] at resolved
      obtain ⟨rfl, -⟩ := run_of_pure resolved
      exact (ColumnSpec.counted_of_resolve found).2

/-- What a reference stands for where the columns in `selections` have the values in `args`. -/
def Reference.valueIn (registry : Registry σ) (schema : Schema) (scope : Scope) (s : σ)
    (selections : List Selection) (args : List Value) (r : Reference) : Value :=
  match r.columns registry schema scope s with
  | .ok selection => (args[selections.idxOf selection]?).getD .missing
  | .error _ => .missing

namespace Eval

/-- Every reference stands for the value of its columns. -/
def columnAnswers (registry : Registry σ) (schema : Schema) (scope : Scope) (s : σ)
    (selections : List Selection) (args : List Value) : Answers σ := fun e =>
  e.reference?.map fun r => pure (r.valueIn registry schema scope s selections args)

end Eval

variable {registry : Registry σ} {schema : Schema} {scope : Scope} {s : σ}

/-- The columns that are read for a body are those of its references, each kept once. -/
theorem Sources.reads_of_run (pure : registry.Pure) {body : Expr} {sources : Sources} {s' : σ}
    (ran : (ofBindings registry schema scope ⟨[], []⟩ (body.replaceReferences.run []).2).run s
      = (.ok sources, s')) :
    sources.selections.Nodup ∧ ∃ selections, List.Forall₂ (fun b selection =>
        b.reference.columns registry schema scope s = .ok selection)
      (body.replaceReferences.run []).2 selections
      ∧ sources.Merges (((body.replaceReferences.run []).2.map Binding.param).zip selections) := by
  constructor
  · obtain ⟨r, first, related⟩ := run_ofBindings pure ⟨[], []⟩ [] rfl s
    rw [ran] at first
    obtain rfl : .ok sources = r := congrArg Prod.fst first
    cases read : (body.replaceReferences.run []).2.mapM fun b =>
        b.reference.columns registry schema scope s with
    | error e =>
        rw [read] at related
        exact related.elim
    | ok selections =>
        rw [read] at related
        exact related ▸ nodup_eraseDups _
  · obtain ⟨selections, each, merges⟩ := ofBindings_ok merges_nil
      (by simpa using (Expr.replaceReferences_numbered body).nodup) ran
    refine ⟨selections, each.imp fun b selection ⟨s₁, s₂, resolved⟩ => ?_, by simpa using merges⟩
    exact (Reference.resolve_steady pure b.reference s s₁).trans (congrArg Prod.fst resolved)

/-- A function comes to the meaning of its body where every reference stands for the argument of its
columns. -/
theorem Function.MadeOf.call_eq_columns (pure : registry.Pure) {f : Function σ} {body : Expr}
    {sources : Sources} (made : f.MadeOf registry scope body sources)
    (ran : (Sources.ofBindings registry schema scope ⟨[], []⟩
      (body.replaceReferences.run []).2).run s = (.ok sources, s))
    (written : body.All Expr.Plain) (assigned : body.All Expr.Local) {args : List Value}
    (count : args.length = f.arity) :
    f.call args = if f.skips args then Pure.pure (.ok .missing)
      else Eval.meaning registry
        (Eval.columnAnswers registry schema scope s sources.selections args) f.captured body := by
  obtain ⟨distinct, selections, resolved, merges⟩ := Sources.reads_of_run pure ran
  refine made.call_eq_meaning resolved.length_eq merges written assigned count ?unanswered ?given
  case unanswered =>
    intro e unreferenced
    simp [Eval.columnAnswers, unreferenced]
  case given =>
    intro b inside
    obtain ⟨j, selection, reads, kept⟩ := merges.kept_of_binding resolved inside
    have position : sources.selections[j]? = some selection := by
      rw [Sources.selections, List.getElem?_map, kept]
      rfl
    obtain ⟨below, there⟩ := List.getElem?_eq_some_iff.mp position
    have first : sources.selections.idxOf selection = j := there ▸ distinct.idxOf_getElem j below
    have arity : j < args.length := by
      rw [count, Function.arity, made.params, List.length_map]
      exact (List.getElem?_eq_some_iff.mp kept).1
    refine ⟨j, args[j], fun e reference => ?_, ?_, List.getElem?_eq_getElem arity⟩
    · simp [Eval.columnAnswers, Reference.valueIn, reference, reads, first, arity]
    · rw [List.getElem?_map, kept]
      rfl

/-! ### Bodies with a name written out -/

namespace Expr.Inlined

variable {v c : String} {body body' : Expr}

/-- The references of both bodies read the same columns, each of them once. -/
theorem columns_eq (inlined : body.Inlined v c body') (value : scope.get? v = some (.string c))
    (written : body.All Plain) (s : σ) :
    ((body.replaceReferences.run []).2.map fun b =>
        (b.reference.columns registry schema scope s).toOption).eraseDups
      = ((body'.replaceReferences.run []).2.map fun b =>
        (b.reference.columns registry schema scope s).toOption).eraseDups := by
  let read (r : Reference) := (r.columns registry schema scope s).toOption
  have same : body'.references.map read = body.references.map read := by
    rw [← List.forall₂_eq_eq_eq, List.forall₂_map_left_iff, List.forall₂_map_right_iff]
    refine inlined.references.flip.imp fun r' r related => ?_
    exact congrArg Except.toOption (Reference.columns_inlined value related s)
  have first := eraseDups_replaceReferences read written (Binding.sound_nil _)
  have second := eraseDups_replaceReferences read (inlined.plain written) (Binding.sound_nil _)
  rw [same] at second
  exact first.trans second.symm

/-- Both bodies mean the same where a reference stands for the argument of its columns. -/
theorem meaning_eq (inlined : body.Inlined v c body') (value : scope.get? v = some (.string c))
    (selections : List Selection) (args : List Value) (captured : List (String × Value)) :
    Eval.meaning registry (Eval.columnAnswers registry schema scope s selections args) captured body
      = Eval.meaning registry (Eval.columnAnswers registry schema scope s selections args) captured
        body' := by
  have named : Reference.valueIn registry schema scope s selections args (.static (.name c))
      = Reference.valueIn registry schema scope s selections args (.deferred (.ident v)) := by
    rw [Reference.valueIn, Reference.columns_inlined value .named s]
    rfl
  unfold Eval.meaning
  rw [inlined.evalWith_eq rfl (congrArg (fun v => some (Pure.pure v)) named)]
  intro e unread
  rw [Eval.columnAnswers, reference?_of_unread unread]
  rfl

end Expr.Inlined

/-- Functions of both bodies that read the same columns and capture the same values come to the same
results. -/
theorem Function.MadeOf.call_inlined (pure : registry.Pure) {v c : String}
    (value : scope.get? v = some (.string c)) {body body' : Expr} (inlined : body.Inlined v c body')
    (written : body.All Expr.Plain) (assigned : body.All Expr.Local) {f f' : Function σ}
    {sources sources' : Sources} (made : f.MadeOf registry scope body sources)
    (made' : f'.MadeOf registry scope body' sources')
    (ran : (Sources.ofBindings registry schema scope ⟨[], []⟩
      (body.replaceReferences.run []).2).run s = (.ok sources, s))
    (ran' : (Sources.ofBindings registry schema scope ⟨[], []⟩
      (body'.replaceReferences.run []).2).run s = (.ok sources', s))
    (kept : sources.selections = sources'.selections) (captured : f.captured = f'.captured)
    (passes : ∀ args, f.skips args = f'.skips args) (args : List Value) :
    f.call args = f'.call args := by
  have arity : f.arity = f'.arity := by
    have lengths := congrArg List.length kept
    simpa [Function.arity, made.params, made'.params, Sources.selections] using lengths
  by_cases count : args.length = f.arity
  · rw [made.call_eq_columns pure ran written assigned count,
      made'.call_eq_columns pure ran' (inlined.plain written) (inlined.local_iff.mpr assigned)
        (count.trans arity),
      ← kept, passes, captured, inlined.meaning_eq value]
  · rw [Function.call, if_pos count, Function.call, if_pos (arity ▸ count), arity]

/-! ### Binding -/

/-- Triples that read and write the same columns in the same way, and have functions with the same
results. -/
structure Triple.Alike (t t' : Triple σ) : Prop where
  argument : t.argument = t'.argument
  sources : t.sources = t'.sources
  sink : t.sink = t'.sink
  mode : t.function.mode = t'.function.mode
  call : ∀ args, t.function.call args = t'.function.call args

/-- Templates that capture the same names capture the same values, or none can be captured. -/
theorem Template.instantiate_matches {t t' : Template} (same : t'.captures = t.captures) :
    Matches (fun f f' => f.captured = f'.captured) (t.instantiate registry scope)
      (t'.instantiate registry scope) := by
  unfold instantiate
  rw [same]
  exact Matches.bind_same fun captured _ => rfl

namespace ArgumentPlan

/-- The triples of a plan with its function, once the columns it reads and writes are known. -/
def triplesFor (plan : ArgumentPlan) (naming : Naming) (f : Function σ) (read : List Selection)
    (sink : Option Selection) : BindM σ (List (Triple σ)) := do
  let pairing ← (Pairing.ofSelections read sink : Except ArgumentError Pairing)
  let sinks := match pairing.sinks with
    | some names => names.map some
    | none => pairing.sources.map fun _ => none
  return (pairing.sources.zip sinks).map fun (names, sink) =>
    ⟨plan.index, names, f, plan.sinkOf naming names sink⟩

/-- Plans with the same target and functions with the same results have triples that are alike. -/
theorem triplesFor_agree {plan plan' : ArgumentPlan} (position : plan.index = plan'.index)
    (target : plan.target = plan'.target) {f f' : Function σ} (mode : f.mode = f'.mode)
    (calls : ∀ args, f.call args = f'.call args) (naming : Naming) (read : List Selection)
    (sink : Option Selection) (s : σ) :
    BindM.Agree s (List.Forall₂ Triple.Alike) (plan.triplesFor naming f read sink)
      (plan'.triplesFor naming f' read sink) := by
  refine (BindM.Agree.lift (Matches.refl _)).bind fun pairing pairing' _ _ same => .pure ?_
  cases same
  refine List.forall₂_map_left_iff.mpr (List.forall₂_map_right_iff.mpr ?_)
  refine List.forall₂_same.mpr fun names _ => ⟨position, rfl, ?_, mode, calls⟩
  unfold sinkOf
  rw [target]

/-- A plan in which a name is written out is bound the same way. -/
theorem bind_agree (pure : registry.Pure) {v c : String} (value : scope.get? v = some (.string c))
    {plan plan' : ArgumentPlan} (h : plan.Inlined v c plan') (s : σ) :
    BindM.Agree s (List.Forall₂ Triple.Alike) (plan.bind registry schema scope)
      (plan'.bind registry schema scope) := by
  obtain ⟨written, assigned, inlined⟩ := h
  rename_i index source source' directives mode target body body'
  have written' := inlined.plain written
  have assigned' := inlined.local_iff.mpr assigned
  have template := Expr.template_of_shell registry written assigned
  have template' := Expr.template_of_shell registry written' assigned'
  rw [inlined.shell_eq] at template'
  refine (Sources.ofBindings_agree pure (inlined.columns_eq value written s)).bind
    fun sources sources' ran ran' kept => ?_
  obtain ⟨distinct, selections, resolved, merges⟩ := Sources.reads_of_run pure ran
  obtain ⟨-, selections', resolved', merges'⟩ := Sources.reads_of_run pure ran'
  have captures : ((ofBody index source' directives mode target body').template.mergeParams
        sources'.aliases).captures
      = ((ofBody index source directives mode target body).template.mergeParams
        sources.aliases).captures := by
    rw [Template.captures_mergeParams, Template.captures_mergeParams]
    exact template'.1.trans template.1.symm
  refine (BindM.Agree.lift (Template.instantiate_matches captures)).bind
    fun f f' instantiated instantiated' captured => ?_
  obtain ⟨made, sameMode, missing⟩ :=
    Function.madeOf resolved.length_eq merges (run_of_lift instantiated).1
  obtain ⟨made', sameMode', missing'⟩ :=
    Function.madeOf resolved'.length_eq merges' (run_of_lift instantiated').1
  have naming : ((ofBody index source' directives mode target body').template.mergeParams
        sources'.aliases).naming
      = ((ofBody index source directives mode target body).template.mergeParams
        sources.aliases).naming := by
    rw [Template.naming_mergeParams, Template.naming_mergeParams]
    exact template'.2.1.trans template.2.1.symm
  have passes (args : List Value) : f.skips args = f'.skips args := by
    rw [Function.skips, Function.skips, missing, missing', sameMode, sameMode']
  have calls := made.call_inlined pure value inlined written assigned made' ran ran' kept captured
    passes
  have finish (sink : Option Selection) : BindM.Agree s (List.Forall₂ Triple.Alike)
      ((ofBody index source directives mode target body).triplesFor
        ((ofBody index source directives mode target body).template.mergeParams
          sources.aliases).naming f sources.selections sink)
      ((ofBody index source' directives mode target body').triplesFor
        ((ofBody index source' directives mode target body').template.mergeParams
          sources'.aliases).naming f' sources'.selections sink) := by
    rw [naming, ← kept]
    exact triplesFor_agree rfl rfl (sameMode.trans sameMode'.symm) calls _ _ _ s
  cases target with
  | explicit e =>
      refine (BindM.Agree.refl (state_evaluateFor pure _ _ _ _)).bind fun v v' _ _ same => ?_
      cases same
      refine (BindM.Agree.lift (Matches.refl _)).bind fun sink sink' _ _ same => ?_
      cases same
      exact finish (some sink)
  | _ => exact finish none

/-- The triples of one argument, planned and bound. -/
def bindArgument (registry : Registry σ) (kind : Kind) (index : Nat) (schema : Schema)
    (scope : Scope) (arg : Expr) : BindM σ (List (Triple σ)) := do
  let plan ← (ofArgument registry kind index arg : Except ArgumentError ArgumentPlan)
  plan.bind registry schema scope

/-- References to one column each are read from columns that are pairwise distinct. -/
theorem nodup_sources (pure : registry.Pure) {kind : Kind} {index : Nat} {arg : Expr}
    {plan : ArgumentPlan} {group : List (Triple σ)} {s' : σ}
    (planned : ofArgument registry kind index arg = .ok plan)
    (bound : (plan.bind registry schema scope).run s = (.ok group, s'))
    (scalar : ∀ b ∈ plan.bindings, ∀ selection,
      b.reference.columns registry schema scope s = .ok selection → selection.shape = [])
    {t : Triple σ} (inside : t ∈ group) : t.sources.Nodup := by
  obtain ⟨p, mode, body, target, -, -, -, -, -, rfl⟩ := ofArgument_ok planned
  obtain ⟨sources, s₁, function, sink, pairing, sinks, ran, -, -, paired, rfl⟩ := bind_ok bound
  obtain ⟨distinct, selections, resolved, merges⟩ := Sources.reads_of_run pure ran
  obtain ⟨⟨names, sink'⟩, there, rfl⟩ := List.mem_map.mp inside
  obtain ⟨-, named⟩ := Pairing.ofSelections_ok paired
  obtain ⟨place, -, each⟩ := exists_of_mem_right named (List.of_mem_zip there).1
  have alone (selection : Selection) (kept : selection ∈ sources.selections) :
      ∃ name, selection = .scalar name := by
    obtain ⟨k, listed, rfl⟩ := List.mem_map.mp kept
    obtain ⟨b, bound, reads⟩ :=
      exists_of_mem_right resolved (List.of_mem_zip (merges.kept k listed)).2
    exact Selection.eq_scalar (Reference.size_of_columns reads) (scalar b bound _ reads)
  have single : List.Forall₂ (fun selection name => selection = Selection.scalar name)
      sources.selections names := by
    refine ((List.forall₂_and_left _ _).mpr ⟨alone, each⟩).imp fun selection name related => ?_
    obtain ⟨⟨own, rfl⟩, given⟩ := related
    cases given
    rfl
  have same : sources.selections = names.map Selection.scalar := by
    rw [← List.forall₂_eq_eq_eq, List.forall₂_map_right_iff]
    exact single
  exact (same ▸ distinct).of_map

end ArgumentPlan

namespace Plan

/-- Interpolating the name of a column in the body of an argument gives the same triples as writing
the column there, and the columns of an argument that refers to one column at a time are read once
each. -/
theorem interpolation_is_writing {registry : Registry σ} (pure : registry.Pure) {text : String}
    {call : Call} {args : List Expr} {arg : Expr} (read : Call.read text = .ok call)
    (expanded : expandBlocks 0 call.arguments.positional = .ok args) (inside : arg ∈ args)
    (kind : Kind) (index : Nat) (schema : Schema) (scope : Scope) (s : σ) :
    (∀ {v c : String} {arg' : Expr}, scope.get? v = some (.string c) → arg.Inlined v c arg' →
      Matches (List.Forall₂ Triple.Alike)
        ((ArgumentPlan.bindArgument registry kind index schema scope arg).run s).1
        ((ArgumentPlan.bindArgument registry kind index schema scope arg').run s).1)
    ∧ ∀ {plan : ArgumentPlan} {group : List (Triple σ)} {s' : σ},
      ArgumentPlan.ofArgument registry kind index arg = .ok plan →
      (plan.bind registry schema scope).run s = (.ok group, s') →
      (∀ b ∈ plan.bindings, ∀ selection,
        b.reference.columns registry schema scope s = .ok selection → selection.shape = []) →
      ∀ t ∈ group, t.sources.Nodup := by
  have written : arg.All Expr.Plain :=
    all_expandBlocks expanded (Call.all_of_read made_plain read).1 arg inside
  refine ⟨fun {v c arg'} value inlined => ?_, fun planned bound scalar t listed =>
    ArgumentPlan.nodup_sources pure planned bound scalar listed⟩
  have planned := ArgumentPlan.ofArgument_matches registry kind index written inlined
  have both : BindM.Agree s (List.Forall₂ Triple.Alike)
      (ArgumentPlan.bindArgument registry kind index schema scope arg)
      (ArgumentPlan.bindArgument registry kind index schema scope arg') :=
    (BindM.Agree.lift planned).bind fun _ _ _ _ related =>
      ArgumentPlan.bind_agree pure value related s
  obtain ⟨r, r', first, second, related⟩ := both
  rw [first, second]
  exact related

/-- In `:y = :a + $v` the name is that of the column read before it, so `:y = :a + :a` gives the
same triple, with the one source. -/
theorem interpolated_sum_is_written : ∃ t t' : Triple Unit, t.Alike t' ∧ t.sources = ["a"]
    ∧ t.sources.Nodup ∧ t.function.call [.int 2] () = (.ok (.int 4), ()) := by
  let target : Expr := .column (.name "y")
  let column : Expr := .column (.name "a")
  let sum (second : Expr) : Expr := .binary .add column second false
  let table : Schema := ⟨"t", [⟨"a", .int, true⟩]⟩
  let scope : Scope := Env.ofList [("v", .string "a")]
  let interpolated : Expr := .assign target (sum (.interpolated (.ident "v")))
  let written : Expr := .assign target (sum column)
  have read : Call.read "@transform(:y = :a + $v)" = .ok ⟨"transform", ⟨[interpolated], []⟩⟩ := rfl
  have value : (sum (.interpolated (.ident "v"))).Inlined "v" "a"
      ((sum (.interpolated (.ident "v"))).withChildren ([column] ++ column :: [])) :=
    .part rfl rfl nofun .here
  have whole : interpolated.Inlined "v" "a"
      (interpolated.withChildren ([target] ++ sum column :: [])) :=
    .part rfl rfl (by simp) value
  have inlined : interpolated.Inlined "v" "a" written := whole
  have pure : (Registry.empty (σ := Unit) "1").Pure := ⟨[], rfl⟩
  let columns (b : Binding) : Except ArgumentError Selection :=
    b.reference.columns (Registry.empty "1") table scope ()
  obtain ⟨plan, t, t', planned, bound, scalars, first, second, sources, four⟩ :
      ∃ (plan : ArgumentPlan) (t t' : Triple Unit),
        ArgumentPlan.ofArgument (Registry.empty (σ := Unit) "1") .transform 0 interpolated
          = .ok plan
        ∧ (plan.bind (Registry.empty "1") table scope).run () = (.ok [t], ())
        ∧ plan.bindings.map columns = [.ok (.scalar "a"), .ok (.scalar "a")]
        ∧ ((ArgumentPlan.bindArgument (Registry.empty "1") .transform 0 table scope
          interpolated).run ()).1 = .ok [t]
        ∧ ((ArgumentPlan.bindArgument (Registry.empty "1") .transform 0 table scope
          written).run ()).1 = .ok [t']
        ∧ t.sources = ["a"] ∧ t.function.call [.int 2] () = (.ok (.int 4), ()) :=
    ⟨_, _, _, rfl, rfl, rfl, rfl, rfl, rfl, rfl⟩
  have scalar (b : Binding) (listed : b ∈ plan.bindings) (selection : Selection)
      (reads : columns b = .ok selection) : selection.shape = [] := by
    have single : columns b ∈ plan.bindings.map columns := List.mem_map_of_mem listed
    rw [scalars, reads] at single
    obtain rfl : selection = .scalar "a" := by simpa using single
    rfl
  have h := interpolation_is_writing pure read rfl List.mem_cons_self .transform 0 table scope ()
  have alike := h.1 rfl inlined
  rw [first, second] at alike
  cases alike with
  | cons alike _ =>
      exact ⟨t, t', alike, sources, h.2 planned bound scalar t List.mem_cons_self, four⟩

end Plan

end TablePlan
