import TablePlan.Proofs.Argument.Body
import TablePlan.Proofs.Indices
import TablePlan.Proofs.Plan.Inversion
import TablePlan.Proofs.Plan.Merging
import TablePlan.Proofs.Plan.Purity
import TablePlan.Registry.Argument

/-!
# Sinks named after the columns they are computed from

A target may compute names from the very interpolation that its argument reads. The names then go
through evaluation and broadcasting, and the columns through resolution and pairing; both keep the
order and the shape of the selection, so every column goes to the sink that is named after it.
-/

namespace TablePlan

variable {σ : Type}

/-! ### Evaluating the target -/

namespace Eval

open Value

/-- Broadcasting over one collection and scalars goes through the collection element by element. -/
theorem broadcast_ofShape {m : Type → Type} [Monad m] [LawfulMonad m] [MonadExceptOf EvalError m]
    (f : List Value → m Value) {shape : Shape}
    {items scalars : List Value} (fits : shape.Fits) (count : items.length = Shape.size shape)
    (plain : ∀ v ∈ items ++ scalars, v.isCollection = false) :
    broadcast f (ofShape shape items :: scalars)
      = ofShape shape <$> items.mapM fun v => f (v :: scalars) := by
  have flat : ∀ v : Value, v.isCollection = false → v.shape = [] := by
    intro v scalar
    cases v <;> first | rfl | cases scalar
  have shapes (whole : Shape) : Shape.common? (whole :: scalars.map Value.shape) = some whole := by
    have all : scalars.map Value.shape = List.replicate scalars.length [] :=
      List.map_eq_replicate_iff.mpr fun v inside => flat v (plain v (by simp [inside]))
    rw [all, Shape.common?, List.foldlM_cons, Shape.join?_nil_left]
    change List.foldlM Shape.join? whole _ = some whole
    induction scalars.length with
    | zero => rfl
    | succ n ih => simpa [List.replicate_succ] using ih
  have aligned (index : List Nat) :
      scalars.mapM (fun arg => alignedElement? arg index) = some scalars := by
    refine mapM_some_iff.mpr (List.forall₂_same.mpr fun v inside => ?_)
    rw [alignedElement?, plain v (by simp [inside])]
    rfl
  cases shape with
  | nil =>
      obtain ⟨v, rfl⟩ := List.length_eq_one_iff.mp count
      change broadcast f (v :: scalars) = _
      have here := shapes v.shape
      rw [flat v (plain v (by simp))] at here
      simp [broadcast, flat v (plain v (by simp)), here, ofShape]
  | cons n rest =>
      have kept : (ofShape (n :: rest) items).shape = n :: rest
          ∧ (ofShape (n :: rest) items).elements = items
          ∧ (ofShape (n :: rest) items).isCollection := by
        cases rest with
        | nil => exact ⟨by simp [ofShape, count], rfl, rfl⟩
        | cons k rest => exact ⟨rfl, rfl, rfl⟩
      obtain ⟨sameShape, sameItems, collection⟩ := kept
      rw [map_eq_pure_bind]
      simp only [broadcast, List.map_cons, sameShape, shapes, Shape.enumerate?_of_fits fits]
      refine congrArg (· >>= fun results => pure (ofShape (n :: rest) results))
        (mapM_congr_forall₂ ((Shape.forall₂_indices count).imp fun index v there => ?_))
      have first : alignedElement? (ofShape (n :: rest) items) index = some v := by
        rw [alignedElement?, if_pos collection, sameShape, sameItems, there]
      simp [List.mapM_cons, first, aligned]

/-- The target computes a name from each column that `$(inner)` gives, by element-by-element calls
of functions of one text and by texts joined at the end. -/
inductive Renames (registry : Registry σ) (inner : Expr) : Expr → (String → String) → Prop
  | here : Renames registry inner (.interpolated inner) id
  | call {target : Expr} {rename f : String → String} {func : String}
      (before : Renames registry inner target rename)
      (maps : ∀ name s, (registry.call func [string name] s).1 = .ok (string (f name))) :
      Renames registry inner (.call func [target] true) (f ∘ rename)
  | join {target : Expr} {rename : String → String}
      (before : Renames registry inner target rename) (ending : String) :
      Renames registry inner (.binary .mul target (.literal (.string ending)) true)
        fun name => rename name ++ ending

/-- Texts computed from texts one by one. -/
theorem mapM_strings {f : Value → EvalM σ Value} {g : String → String}
    (each : ∀ name m, ∃ m', f (string name) m = (.ok (string (g name)), m')) (names : List String)
    (m : Machine σ) : ∃ m', (names.map string).mapM f m = (.ok ((names.map g).map string), m') := by
  induction names generalizing m with
  | nil => exact ⟨m, rfl⟩
  | cons name rest ih =>
      obtain ⟨m₁, first⟩ := each name m
      obtain ⟨m₂, later⟩ := ih m₁
      refine ⟨m₂, ?_⟩
      rw [List.map_cons, List.mapM_cons]
      simp only [bind, ExceptT.bind, ExceptT.mk, StateT.bind, first, ExceptT.bindCont, later]
      rfl

theorem call_of_result {registry : Registry σ} {func : String} {args : List Value} {v : Value}
    {m : Machine σ} (h : (registry.call func args m.state).1 = .ok v) :
    EvalM.call registry func args m
      = (.ok v, { m with state := (registry.call func args m.state).2 }) := by
  rw [Parallel.run_call, h]
  rfl

/-- A target evaluates to the computed names in the shape of the columns. -/
theorem eval_renames {registry : Registry σ} {schema : Schema} {scope : Scope} {inner target : Expr}
    {rename : String → String} {selection : Selection} {m : Machine σ}
    (named : ∃ v m', eval registry (.selector scope) inner m = (.ok v, m')
      ∧ columnNames schema v = .ok (ofShape selection.shape (selection.names.map string)))
    (fits : selection.shape.Fits) (count : selection.names.length = Shape.size selection.shape)
    (renames : Renames registry inner target rename) :
    ∃ m', eval registry (.sink scope schema) target m
      = (.ok (ofShape selection.shape ((selection.names.map rename).map string)), m') := by
  have stepwise {f : List Value → EvalM σ Value} {g : String → String} (scalars : List Value)
      (plain : ∀ v ∈ scalars, v.isCollection = false)
      (each : ∀ name m, ∃ m', f (string name :: scalars) m = (.ok (string (g name)), m'))
      (names : List String) (many : names.length = Shape.size selection.shape) (m : Machine σ) :
      ∃ m', broadcast f (ofShape selection.shape (names.map string) :: scalars) m
        = (.ok (ofShape selection.shape ((names.map g).map string)), m') := by
    obtain ⟨m', computed⟩ := mapM_strings (f := fun v => f (v :: scalars)) each names m
    refine ⟨m', ?_⟩
    rw [broadcast_ofShape f fits (by simpa using many)
      (by simpa [isCollection, or_imp, forall_and] using plain), map_eq_pure_bind, bind_of_ok computed]
    rfl
  induction renames with
  | here =>
      obtain ⟨v, m', evaluated, names⟩ := named
      refine ⟨m', ?_⟩
      rw [eval, bind_of_ok evaluated, names, List.map_id]
      rfl
  | @call target rename f func before maps ih =>
      obtain ⟨m₁, evaluated⟩ := ih
      have items : evalItems registry (.sink scope schema) [target] m
          = (.ok [ofShape selection.shape ((selection.names.map rename).map string)], m₁) := by
        rw [evalItems, bind_of_ok evaluated]
        rfl
      obtain ⟨m₂, computed⟩ := stepwise (f := EvalM.call registry func) (g := f) [] (by simp)
        (fun name m => ⟨_, call_of_result (maps name m.state)⟩) (selection.names.map rename)
        (by simpa using count) m₁
      refine ⟨m₂, ?_⟩
      rw [eval, bind_of_ok items, if_pos rfl, ← List.map_map]
      exact computed
  | @join target rename before ending ih =>
      obtain ⟨m₁, evaluated⟩ := ih
      have joined : selection.names.map (fun name => rename name ++ ending)
          = (selection.names.map rename).map (· ++ ending) := by simp
      rw [eval, bind_of_ok evaluated, eval_literal, pure_bind, if_pos rfl, joined]
      · refine stepwise (g := (· ++ ending)) [string ending] (by simp [isCollection])
          (fun name m => ?_) (selection.names.map rename) (by simpa using count) m₁
        exact ⟨m, rfl⟩
      all_goals rintro ⟨⟩

end Eval

/-! ### Reading one reference only -/

namespace Expr

open Binding

/-- Every outermost reference of an expression is `r`. -/
inductive ReadsOnly (r : Reference) : Expr → Prop
  | reference {e : Expr} (is : e.reference? = some r) : ReadsOnly r e
  | node {e : Expr} (other : e.reference? = none) (parts : ∀ c ∈ e.children, ReadsOnly r c) :
      ReadsOnly r e

/-- The parameters of an expression that reads one reference only have that reference. -/
theorem ReadsOnly.adds {r : Reference} {e : Expr} (h : ReadsOnly r e) {bindings : List Binding}
    (sound : Sound (· = r) bindings) :
    Adds (· = r) bindings e.replaceReferences
      fun more _ => (∃ n ∈ e.nodes, n.isReference) → more ≠ [] := by
  induction h generalizing bindings with
  | @reference e is =>
      rw [replaceReferences, substitute_eq, is]
      refine Adds.map (S := fun more _ => (∃ n ∈ e.nodes, n.isReference) → more ≠ [])
        (bind_adds (W := (· = r)) rfl sound) fun param more found _ none => ?_
      obtain ⟨b, inside, -⟩ := found
      rw [none] at inside
      cases inside
  | @node e other parts ih =>
      rw [replaceReferences, substitute_eq, other, Option.map_none, Option.getD_none, mapChildren_eq]
      refine (Adds.mapM (R := fun more c _ => (∃ n ∈ c.nodes, n.isReference) → more ≠ []) sound
        (fun c c' bindings more grown some has none => ?_)
        fun c child bindings sound => ih c child sound).map fun cs more each => ?_
      · subst none
        exact some has (List.prefix_nil.mp grown)
      · rintro ⟨n, inside, isReference⟩
        obtain rfl | ⟨c, child, inside⟩ := mem_nodes_iff.mp inside
        · rw [isReference_eq_false other] at isReference
          cases isReference
        · obtain ⟨c', -, some⟩ := exists_of_mem_left each child
          exact some ⟨n, inside, isReference⟩

theorem ReadsOnly.of_directed {r : Reference} {letters : String} {inner : Expr}
    (h : (directed letters inner).ReadsOnly r) : inner.ReadsOnly r := by
  cases h with
  | reference is => cases is
  | node _ parts => exact parts inner (by simp [children])

theorem occurs_of_directed {letters : String} {inner : Expr}
    (h : ∃ n ∈ (directed letters inner).nodes, n.isReference) :
    ∃ n ∈ inner.nodes, n.isReference := by
  obtain ⟨n, listed, isReference⟩ := h
  obtain rfl | ⟨c, child, inside⟩ := mem_nodes_iff.mp listed
  · cases isReference
  · obtain rfl := List.mem_singleton.mp child
    exact ⟨n, inside, isReference⟩

end Expr

namespace Sources

variable {registry : Registry σ} {schema : Schema} {scope : Scope} {r : Reference}
  {selection : Selection}

/-- Parameters of one reference are merged into the first of them. -/
theorem ofBindings_same (resolves : ∀ s, ∃ s', (r.resolve registry schema scope).run s
      = (.ok selection, s')) {bindings : List Binding} (same : ∀ b ∈ bindings, b.reference = r)
    {sources : Sources} (start : sources.kept = [] ∧ bindings ≠ []
      ∨ sources.kept.map Prod.snd = [selection]) (s : σ) :
    ∃ sources' s', (ofBindings registry schema scope sources bindings).run s = (.ok sources', s')
      ∧ sources'.kept.map Prod.snd = [selection] := by
  induction bindings generalizing sources s with
  | nil =>
      obtain ⟨-, empty⟩ | kept := start
      · exact absurd rfl empty
      · exact ⟨sources, s, rfl, kept⟩
  | cons b rest ih =>
      rw [List.forall_mem_cons] at same
      obtain ⟨s₁, first⟩ := resolves s
      rw [← same.1] at first
      have added : (sources.add b.param selection).kept.map Prod.snd = [selection] := by
        unfold add
        obtain ⟨none, -⟩ | kept := start
        · simp [none]
        · obtain ⟨k, only, own⟩ := List.map_eq_singleton_iff.mp kept
          simp [only, own]
      obtain ⟨sources', s', later, kept⟩ := ih same.2 (.inr added) s₁
      refine ⟨sources', s', ?_, kept⟩
      rw [ofBindings]
      exact (bind_of_ok first).trans later

end Sources

/-! ### Binding the argument -/

/-- An assignment is taken apart at its target, and a directive around its value is taken off. -/
theorem Peeled.ofArgument_assign {target value : Expr} {p : Peeled}
    (h : ofArgument (.assign target value) = .ok p) :
    p.target = some target ∧ p.directives.collect = false
      ∧ (p.body = value ∨ ∃ letters, value = .directed letters p.body) := by
  obtain ⟨q, outermost, h⟩ := ok_of_bind h
  obtain ⟨⟨⟩, -, h⟩ := ok_of_bind h
  cases h
  obtain ⟨role, played, h⟩ := ok_of_bind (x := value.role) outermost
  cases role with
  | directed directives inner =>
      obtain ⟨letters, rfl⟩ := Expr.eq_of_role played
      cases collects : directives.collect with
      | true =>
          simp only [collects, if_true] at h
          cases h
      | false =>
          simp only [collects] at h
          cases h
          exact ⟨rfl, collects, .inr ⟨letters, rfl⟩⟩
  | _ =>
      cases h
      exact ⟨rfl, rfl, .inl rfl⟩

/-- Names in a shape are the selection that a target of these names makes. -/
theorem Sink.selection_ofShape (schema : Schema) (target : Expr) {selection : Selection}
    (count : selection.names.length = Shape.size selection.shape) :
    Sink.selection schema target (.ofShape selection.shape (selection.names.map .string))
      = .ok selection := by
  obtain ⟨names, shape⟩ := selection
  have texts {f : Value → Except ArgumentError String} (each : ∀ name, f (.string name) = .ok name) :
      (names.map Value.string).mapM f = .ok names := by
    refine mapM_ok_iff.mpr (List.forall₂_map_left_iff.mpr (List.forall₂_same.mpr fun name _ => ?_))
    exact each name
  match shape with
  | [] =>
      obtain ⟨name, rfl⟩ := List.length_eq_one_iff.mp count
      rfl
  | [n] =>
      obtain rfl : names.length = n := by simpa using count
      simp only [Sink.selection, Value.ofShape, Value.shape_list, List.length_map]
      rw [texts fun name => rfl]
      rfl
  | n :: k :: rest =>
      simp only [Sink.selection, Value.ofShape]
      rw [texts fun name => rfl]
      rfl

namespace Template

theorem instantiate_of_scope {t : Template} {registry : Registry σ} {scope : Scope}
    (captured : ∀ name ∈ t.captures, (scope.get? name).isSome) :
    ∃ f, t.instantiate registry scope = .ok f := by
  have each : ∃ vs, t.captures.mapM (capture scope) = .ok vs := by
    refine exists_mapM_ok fun name listed => ?_
    obtain ⟨v, found⟩ := Option.isSome_iff_exists.mp (captured name listed)
    exact ⟨(name, v), by rw [capture, found]⟩
  obtain ⟨vs, captures⟩ := each
  exact ⟨_, by rw [instantiate, captures]; rfl⟩

end Template

/-- What the interpolation of a reference that is resolved comes to. -/
theorem Reference.named_of_resolve {registry : Registry σ} {schema : Schema} {scope : Scope}
    {inner : Expr} {selection : Selection} {s s' : σ}
    (h : ((deferred inner).resolve registry schema scope).run s = (.ok selection, s')) :
    (∃ v m, Eval.eval registry (.selector scope) inner ⟨.empty, s⟩ = (.ok v, m)
      ∧ Eval.columnNames schema v
        = .ok (.ofShape selection.shape (selection.names.map .string)))
    ∧ selection.shape.Fits ∧ selection.names.length = Shape.size selection.shape := by
  obtain ⟨spec, s₁, specified, h⟩ := run_of_bind h
  obtain ⟨v, s₂, evaluated, specified⟩ := run_of_bind specified
  rw [run_evaluateFor] at evaluated
  have ran := ok_of_mapError (Prod.mk.inj evaluated).1
  have stands : v.toSpec = .ok spec := by
    cases stands : v.toSpec with
    | error e =>
        simp only [stands] at specified
        cases specified
    | ok spec' =>
        simp only [stands] at specified
        cases specified
        rfl
  have resolved : spec.resolve schema = .ok selection := by
    cases resolved : spec.resolve schema with
    | error e =>
        simp only [resolved] at h
        cases h
    | ok selection' =>
        simp only [resolved] at h
        cases h
        rfl
  refine ⟨⟨v, _, Prod.ext ran rfl, ?_⟩, ColumnSpec.counted_of_resolve resolved⟩
  rw [Eval.columnNames, stands]
  change (spec.resolve schema).mapError _ >>= _ = _
  rw [resolved]
  rfl

namespace ArgumentPlan

/-- An argument that computes its target from the one reference of its value is bound to a triple
for every column of the reference, with the sink that is named after this column. -/
theorem bind_renames {registry : Registry σ} {kind : Kind} {index : Nat} {plan : ArgumentPlan}
    {schema : Schema} {scope : Scope} {inner target value : Expr} {rename : String → String}
    {selection : Selection}
    (resolves : ∀ s, ∃ s', ((Reference.deferred inner).resolve registry schema scope).run s
      = (.ok selection, s'))
    (renames : Eval.Renames registry inner target rename)
    (reads : value.ReadsOnly (.deferred inner)) (occurs : ∃ n ∈ value.nodes, n.isReference)
    (planned : ofArgument registry kind index (.assign target value) = .ok plan)
    (captured : ∀ name ∈ plan.template.captures, (scope.get? name).isSome) (s : σ) :
    ∃ triples s', (plan.bind registry schema scope).run s = (.ok triples, s')
      ∧ triples.map (fun t => (t.sources, t.sink))
        = selection.names.map fun name => ([name], Sink.column (rename name)) := by
  obtain ⟨p, mode, body, t, peeled, -, split, -, -, rfl⟩ := ofArgument_ok planned
  obtain ⟨targeted, uncollected, inside⟩ := Peeled.ofArgument_assign peeled
  rw [bodyAndTarget, if_neg (by simp [uncollected]), targeted] at split
  cases split
  obtain ⟨reads, occurs⟩ : p.body.ReadsOnly (.deferred inner)
      ∧ ∃ n ∈ p.body.nodes, n.isReference := by
    obtain rfl | ⟨letters, rfl⟩ := inside
    · exact ⟨reads, occurs⟩
    · exact ⟨reads.of_directed, Expr.occurs_of_directed occurs⟩
  obtain ⟨⟨-, same⟩, -, found⟩ := reads.adds (Binding.sound_nil _)
  have start : (⟨[], []⟩ : Sources).kept = [] ∧ (p.body.replaceReferences.run []).2 ≠ []
      ∨ (⟨[], []⟩ : Sources).kept.map Prod.snd = [selection] := .inl ⟨rfl, found occurs⟩
  obtain ⟨sources, s₁, merged, kept⟩ := Sources.ofBindings_same resolves same start s
  let template := Template.ofBody ((p.body.replaceReferences.run []).2.map Binding.param)
    (p.body.replaceReferences.run []).1 mode p.directives.passMissing
  obtain ⟨function, made⟩ : ∃ function,
      (template.mergeParams sources.aliases).instantiate registry scope = .ok function :=
    Template.instantiate_of_scope fun name listed =>
      captured name (by rwa [Template.captures_mergeParams] at listed)
  obtain ⟨s₂, resolved⟩ := resolves s₁
  obtain ⟨named, fits, count⟩ := Reference.named_of_resolve resolved
  obtain ⟨m, evaluated⟩ := Eval.eval_renames named fits count renames
  have sink := run_evaluateFor registry (.sink scope schema) target target s₁
  rw [evaluated] at sink
  let renamed : Selection := ⟨selection.names.map rename, selection.shape⟩
  have many : renamed.names.length = Shape.size renamed.shape := by simpa [renamed] using count
  have selected := Sink.selection_ofShape schema target many
  have paired : Pairing.ofSelections [selection] (some renamed) = .ok ⟨selection.shape,
      selection.names.map ([·]), some renamed.names⟩ := Pairing.ofSelections_same rfl fits count many
  rw [← kept] at paired
  have lifted {α : Type} {x : Except ArgumentError α} {a : α} (h : x = .ok a) (s : σ) :
      (liftM x : BindM σ α) s = (.ok a, s) := by
    rw [h]
    rfl
  refine ⟨_, m.state, (bind_of_ok merged).trans ((bind_of_ok (lifted made s₁)).trans
    ((bind_of_ok sink).trans ((bind_of_ok (lifted selected _)).trans
      ((bind_of_ok (lifted rfl _)).trans (bind_of_ok (lifted paired _)))))), ?_⟩
  have aligned : (selection.names.map ([·])).zip (renamed.names.map Option.some)
      = selection.names.map fun name => ([name], Option.some (rename name)) := by
    rw [List.map_map, List.zip_map']
    rfl
  simp only [aligned, List.map_map]
  rfl

end ArgumentPlan

namespace Plan

/-- An assignment whose value reads the columns of one interpolation only, and whose target
computes names from this interpolation, is bound to a triple for each of the columns in order. The
triple reads that column and writes the one that is named after it. -/
theorem renamed_columns_stay_aligned {registry : Registry σ} {kind : Kind} {schema : Schema}
    {scope : Scope} {inner target value : Expr} {rename : String → String} {selection : Selection}
    {plan : Plan σ}
    (resolves : ∀ s, ∃ s', ((Reference.deferred inner).resolve registry schema scope).run s
      = (.ok selection, s'))
    (renames : Eval.Renames registry inner target rename)
    (reads : value.ReadsOnly (.deferred inner)) (occurs : ∃ n ∈ value.nodes, n.isReference)
    (planned : ofArguments registry kind ⟨[.assign target value], []⟩ = .ok plan)
    (captured : ∀ argument ∈ plan.arguments, ∀ name ∈ argument.template.captures,
      (scope.get? name).isSome) (s : σ) :
    ∃ pipeline s', (plan.bind schema scope).run s = (.ok pipeline, s')
      ∧ pipeline.triples.map (fun t => (t.sources, t.sink))
        = selection.names.map fun name => ([name], Sink.column (rename name)) := by
  obtain ⟨args, expanded, rest⟩ := ok_of_bind planned
  obtain ⟨plans, each, made⟩ := ok_of_bind rest
  cases made
  cases expanded
  cases planArguments_ok each with
  | @cons _ argument _ _ only others =>
      cases others
      obtain ⟨triples, s', bound, aligned⟩ := ArgumentPlan.bind_renames resolves renames reads occurs
        only (captured _ List.mem_cons_self) s
      have whole : (bindArguments registry schema scope [argument]).run s
          = (.ok (triples ++ []), s') := by
        have ran : (liftM (argument.bind registry schema scope).run : PlanM σ _) s
            = (.ok (.ok triples), s') := by
          rw [run_state, bound]
        exact (bind_of_ok ran).trans rfl
      refine ⟨⟨kind, triples ++ [], []⟩, s', (bind_of_ok whole).trans rfl, ?_⟩
      rw [List.append_nil]
      exact aligned

/-- Two columns are marked, and each goes to the column that is named after it. -/
theorem marked_columns_stay_aligned : ∃ (plan : Plan Unit) (pipeline : Pipeline Unit),
    (plan.bind ⟨"t", [⟨"a", .int, true⟩, ⟨"b", .int, true⟩]⟩
      ⟨[("cols", .list [.string "b", .string "a"]), ("k", .int 1)]⟩).run () = (.ok pipeline, ())
    ∧ pipeline.triples.map (fun t => (t.sources, t.sink))
      = [(["b"], .column "b!_2"), (["a"], .column "a!_2")] := by
  let mark (name : String) : String := name ++ "!"
  let registry : Registry Unit :=
    ⟨"1", [(PureFunction.unary "mark" fun v => return .string (mark (← v.expectString))).toOverload]⟩
  let schema : Schema := ⟨"t", [⟨"a", .int, true⟩, ⟨"b", .int, true⟩]⟩
  let scope : Scope := ⟨[("cols", .list [.string "b", .string "a"]), ("k", .int 1)]⟩
  let columns : Expr := .interpolated (.ident "cols")
  let target : Expr := .binary .mul (.call "mark" [columns] true) (.literal (.string "_2")) true
  let value : Expr := .binary .add columns (.ident "k") false
  have resolves : ∀ s, ∃ s', ((Reference.deferred (.ident "cols")).resolve registry schema
      scope).run s = (.ok (.vector ["b", "a"]), s') := fun s => ⟨s, rfl⟩
  have renames : Eval.Renames registry (.ident "cols") target fun name => mark name ++ "_2" :=
    .join (.call (f := mark) .here fun name s => rfl) "_2"
  have reads : value.ReadsOnly (.deferred (.ident "cols")) := by
    refine .node rfl fun c child => ?_
    obtain rfl | rfl := List.mem_pair.mp child
    · exact .reference rfl
    · exact .node rfl fun c child => nomatch child
  obtain ⟨plan, planned, captures⟩ : ∃ plan : Plan Unit,
      ofArguments registry .transform ⟨[.assign target value], []⟩ = .ok plan
      ∧ plan.arguments.map (fun argument => argument.template.captures) = [["k"]] := ⟨_, rfl, rfl⟩
  have captured : ∀ argument ∈ plan.arguments, ∀ name ∈ argument.template.captures,
      (scope.get? name).isSome := by
    intro argument inside name listed
    have one := List.mem_map_of_mem (f := fun argument => argument.template.captures) inside
    rw [captures, List.mem_singleton] at one
    rw [one, List.mem_singleton] at listed
    rw [listed]
    rfl
  obtain ⟨pipeline, s', bound, aligned⟩ := renamed_columns_stay_aligned resolves renames reads
    ⟨columns, by simp [value, columns, Expr.nodes], rfl⟩ planned captured ()
  exact ⟨plan, pipeline, bound, aligned⟩

end Plan

end TablePlan
