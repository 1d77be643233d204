import TablePlan.Proofs.Argument.Body
import TablePlan.Proofs.Grammar.Results
import TablePlan.Proofs.Plan.Purity
import TablePlan.Proofs.Plan.Structure
import TablePlan.Proofs.Shape

/-!
# Bound functions keep the meaning of arguments

The meaning of an argument on a row is the value of its body before references are replaced: every
reference stands for the value that the row has in the column which the reference selects there,
and names start with the captured values. Numbering references, merging parameters and naming the
sources of each triple leave this meaning alone.
-/

namespace TablePlan

variable {σ : Type}

/-! ### Meaning -/

/-- The column that a reference selects at an index of the shape of its argument. -/
def Reference.columnAt (registry : Registry σ) (schema : Schema) (scope : Scope) (s : σ)
    (index : List Nat) (r : Reference) : Option String :=
  match (r.resolve registry schema scope).run s with
  | (.ok selection, _) => (Pairing.nameAt selection index).toOption
  | (.error _, _) => none

namespace Eval

/-- Every reference stands for the value that a row has in its column. -/
def rowAnswers (registry : Registry σ) (schema : Schema) (scope : Scope) (s : σ)
    (index : List Nat) (row : String → Value) : Answers σ := fun e => do
  let r ← e.reference?
  let column ← r.columnAt registry schema scope s index
  some (pure (row column))

/-- Evaluate an expression with answers, starting with captured values. -/
def meaning (registry : Registry σ) (answers : Answers σ) (captured : List (String × Value))
    (e : Expr) : StateM σ (Except EvalError Value) := fun s =>
  let (result, m) := evalWith registry answers e ⟨Env.ofList captured, s⟩
  (result, m.state)

end Eval

/-! ### Parameters in place of references -/

namespace Expr

/-- An assignment is to local names. -/
def Local : Expr → Prop
  | assign target _ => target.All fun n => n.isReference = false
  | _ => True

/-- A body whose assignments are not refused has none to columns. -/
theorem all_local {body : Expr} (h : ArgumentPlan.refuseColumnTargets body = .ok ()) :
    body.All Local := by
  simp only [ArgumentPlan.refuseColumnTargets] at h
  split at h
  · cases h
  · rename_i unrefused
    intro n inside
    cases n with
    | assign target value =>
        intro k there
        by_contra reference
        have offends : (target.find? isReference).isSome :=
          List.find?_isSome.mpr ⟨k, there, by simpa using reference⟩
        cases found : body.find? fun
            | assign target _ => (target.find? isReference).isSome
            | _ => false with
        | none =>
            have := List.find?_eq_none.mp found _ inside
            exact this offends
        | some first =>
            have test := List.find?_some found
            cases first <;> first | cases test | exact unrefused _ _ found
    | _ => trivial

end Expr

namespace Parallel

/-- A body is evaluated from captured values on the left, and from the values of parameters as well
on the right. -/
def called (captured : List (String × Value)) (params : List String) (args : List Value) :
    Parallel σ where
  shared n := ∀ number, n ≠ Binding.paramName number
  left := captured.reverse
  right := (captured ++ params.zip args).reverse
  states := Eq

variable {P : Parallel σ} {registry : Registry σ}

/-- A name that is not shared is hidden by no local variable. -/
theorem runs_param {p : String} {v : Value} (own : ¬ P.shared p) (given : P.right.lookup p = some v) :
    P.Runs (pure v) (Eval.lookup .body p) := by
  intro locals s t shared related
  have fresh : locals.lookup p = none := by
    rw [List.lookup_eq_none_iff]
    intro l inside
    have other : p ≠ l.1 := fun same => own (same ▸ shared l inside)
    simpa using other
  have found : (locals ++ P.right).lookup p = some v := by
    rw [List.lookup_append, fresh, given]
    rfl
  refine ⟨.ok v, locals, s, t, rfl, ?_, shared, related⟩
  simp only [Eval.lookup, bind, ExceptT.bind, ExceptT.mk, StateT.bind, ExceptT.bindCont, run_get,
    Env.get?, found]
  rfl

/-- The parameter of every reference, under the name that it is merged into, has the value on the
right that the reference stands for on the left. -/
def Given (P : Parallel σ) (answers : Eval.Answers σ) (aliases : List (String × String))
    (bindings : List Binding) : Prop :=
  ∀ b ∈ bindings, ∃ v, (∀ e, e.reference? = some b.reference → answers e = some (pure v))
    ∧ P.right.lookup (Expr.renamed aliases b.param) = some v
    ∧ ¬ P.shared (Expr.renamed aliases b.param)

section

variable {answers : Eval.Answers σ} {aliases : List (String × String)}

/-- Where the parameter of every reference has the value that the reference stands for, replacing
the references and merging their parameters makes no difference. -/
theorem runs_replaced (agrees : P.Agrees registry)
    (hygienic : ∀ n, P.shared n ↔ ∀ number, n ≠ Binding.paramName number)
    (fresh : ∀ n, P.shared n → aliases.lookup n = none)
    (unanswered : ∀ e, e.reference? = none → answers e = none) {body : Expr}
    (written : body.All Expr.Plain) (assigned : body.All Expr.Local)
    (given : P.Given answers aliases (body.replaceReferences.run []).2) :
    P.Runs (Eval.evalWith registry answers body)
      (Eval.evalWith registry (fun _ => none)
        ((body.replaceReferences.run []).1.rename aliases)) := by
  have names {e : Expr} (written : e.All Expr.Plain) : e.All P.Names := by
    intro n inside
    have plain := written n inside
    cases n
    case ident | splat => exact (hygienic _).mpr plain
    all_goals trivial
  have kept {name : String} (shared : P.shared name) : Expr.renamed aliases name = name := by
    rw [Expr.renamed, fresh name shared, Option.getD_none]
  refine (Expr.replaceReferences_adds_unread (W := Reference.Written)
    (Q := fun n => n.Plain ∧ n.Local)
    (R := fun bindings e e' => P.Given answers aliases bindings →
      P.Runs (Eval.evalWith registry answers e)
        (Eval.evalWith registry (fun _ => none) (e'.rename aliases)))
    ?grow ?answer ?rebuild (fun n inside => ⟨written n inside, assigned n inside⟩)
    (Binding.sound_nil _)).2.2 given
  case grow =>
    intro e e' bindings more grown runs given
    exact runs fun b inside => given b (grown.subset inside)
  case answer =>
    intro e r bindings all reference sound
    have plain : e.All Expr.Plain := fun n inside => (all n inside).1
    have own : r.Written := Expr.written_of_reference? plain reference
    refine (Binding.bind_adds own sound).mono fun more param sound' => ?_
    rintro ⟨b, inside, rfl, alike⟩ given
    have same : b.reference = r := alike.elim id (Reference.eq_of_same (sound'.2 b inside) own)
    obtain ⟨v, answered, found, hidden⟩ := given b inside
    rw [Eval.evalWith_of_some (answered e (same ▸ reference)), Expr.rename_ident]
    exact runs_param hidden found
  case rebuild =>
    intro e cs bindings all unreferenced parts given
    have count : cs.length = e.children.length := parts.length_eq.symm
    have plain : e.All Expr.Plain := fun n inside => (all n inside).1
    have own : ∀ name, e = .ident name → Expr.renamed aliases name = name := by
      rintro name rfl
      exact kept (names plain _ (Expr.self_mem_nodes (.ident name)))
    rw [Expr.rename_withChildren own count]
    refine Runs.withChildren agrees (unanswered e unreferenced) rfl
      (Expr.isReference_eq_false unreferenced) (agrees.reads (names plain)) ?targets ?parts
    case targets =>
      rintro target value rfl
      cases parts with
      | cons first _ =>
          have unread := first.2 (all _ (Expr.self_mem_nodes _)).2
          have target : target.All P.Names := (names plain).child (by simp [Expr.children])
          rw [List.map_cons, List.head?_cons, unread,
            Expr.rename_eq_self fun name inside => kept (target _ inside)]
    case parts =>
      rw [List.forall₂_map_right_iff]
      exact parts.imp fun c c' related => related.1 given

end

end Parallel

namespace Sources

/-- The columns that are kept are those of all parameters. -/
theorem Merges.mem_selections {sources : Sources} {read : List (String × Selection)}
    (h : sources.Merges read) (selection : Selection) :
    selection ∈ read.map Prod.snd ↔ selection ∈ sources.kept.map Prod.snd := by
  constructor
  · intro inside
    obtain ⟨r, listed, rfl⟩ := List.mem_map.mp inside
    exact List.mem_map.mpr ⟨_, h.found r listed, rfl⟩
  · intro inside
    obtain ⟨k, listed, rfl⟩ := List.mem_map.mp inside
    exact List.mem_map_of_mem (h.kept k listed)

end Sources

/-- Merging parameters does not change the shape that an argument is paired in. -/
theorem Pairing.IsShape.congr {sources others : List Selection} {sink : Option Selection}
    {shape : Shape} (h : IsShape sources sink shape) (same : ∀ s, s ∈ others ↔ s ∈ sources) :
    IsShape others sink shape := by
  obtain ⟨sourceShape, common, joined⟩ := h
  refine ⟨sourceShape, ?_, joined⟩
  rw [← common]
  refine Shape.common?_congr fun a => ?_
  simp only [List.mem_map, same]

theorem lookup_zip_of_not_mem {params : List String} {args : List Value} {n : String}
    (other : n ∉ params) : ((params.zip args).reverse).lookup n = none := by
  rw [List.lookup_eq_none_iff]
  intro v inside
  have listed : v.1 ∈ params := (List.of_mem_zip (List.mem_reverse.mp inside)).1
  have different : n ≠ v.1 := fun same => other (same ▸ listed)
  simpa using different

/-- A parameter has the value of its position. -/
theorem lookup_param {params : List String} {args : List Value} {j : Nat} {p : String} {v : Value}
    (distinct : params.Nodup) (name : params[j]? = some p) (value : args[j]? = some v) :
    ((params.zip args).reverse).lookup p = some v := by
  induction params generalizing args j with
  | nil => cases name
  | cons q params ih =>
      cases args with
      | nil => cases value
      | cons a args =>
          obtain ⟨fresh, distinct⟩ := List.nodup_cons.mp distinct
          rw [List.zip_cons_cons, List.reverse_cons, List.lookup_append]
          cases j with
          | zero =>
              cases name
              cases value
              rw [lookup_zip_of_not_mem fresh]
              simp
          | succ j =>
              rw [ih distinct name value]
              rfl

namespace Parallel

theorem called_agrees (registry : Registry σ) {captured : List (String × Value)}
    {params : List String} {args : List Value}
    (numbered : ∀ p ∈ params, ∃ number, p = Binding.paramName number) :
    (called (σ := σ) captured params args).Agrees registry where
  names n shared := by
    have other : n ∉ params := by
      intro listed
      obtain ⟨number, same⟩ := numbered n listed
      exact shared number same
    change captured.reverse.lookup n = ((captured ++ params.zip args).reverse).lookup n
    rw [List.reverse_append, List.lookup_append, lookup_zip_of_not_mem other, Option.none_or]
  calls func args s t same := by
    cases same
    exact ⟨rfl, rfl⟩

end Parallel

namespace Function

/-- A call of a function whose body runs like an expression with answers comes to its meaning. -/
theorem call_of_runs {f : Function σ} {args : List Value} {answers : Eval.Answers σ} {body : Expr}
    (count : args.length = f.arity)
    (runs : (Parallel.called f.captured f.params args).Runs
      (Eval.evalWith f.registry answers body) (Eval.evalWith f.registry (fun _ => none) f.body)) :
    f.call args = if f.skips args then pure (.ok .missing)
      else Eval.meaning f.registry answers f.captured body := by
  funext s
  rw [call, if_neg (not_not.mpr count)]
  split
  · rfl
  · obtain ⟨outcome, locals, s', t', left, right, -, same⟩ := runs [] s s (by simp) rfl
    cases same
    have plain : Eval.evalWith f.registry (fun _ => none) f.body
        = Eval.eval f.registry .body f.body := (Eval.eval_eq_evalWith .body f.body).symm
    rw [plain] at right
    have ran : Eval.eval f.registry .body f.body ⟨f.env args, s⟩ = (outcome, _) := right
    have meant : Eval.evalWith f.registry answers body ⟨Env.ofList f.captured, s⟩ = (outcome, _) :=
      left
    change ((Eval.eval f.registry .body f.body ⟨f.env args, s⟩).1,
        (Eval.eval f.registry .body f.body ⟨f.env args, s⟩).2.state)
      = ((Eval.evalWith f.registry answers body ⟨Env.ofList f.captured, s⟩).1,
        (Eval.evalWith f.registry answers body ⟨Env.ofList f.captured, s⟩).2.state)
    rw [ran, meant]

end Function

theorem Collected.allows_plain : Collected.Allows Expr.Plain where
  field name number same := by
    have second := congrArg (fun s => s.toList.drop 1 |>.head?) same
    simp [Collected.fieldLocal, Binding.paramName] at second
  tuple _ := trivial
  assign _ _ := trivial
  record _ := trivial
  block _ := trivial

namespace Sources.Merges

variable {bindings : List Binding} {selections : List Selection} {sources : Sources}

/-- The parameter that a binding is merged with reads the columns of the reference. -/
theorem kept_of_binding {R : Binding → Selection → Prop}
    (merges : sources.Merges ((bindings.map Binding.param).zip selections))
    (read : List.Forall₂ R bindings selections) {b : Binding} (inside : b ∈ bindings) :
    ∃ (j : Nat) (selection : Selection), R b selection
      ∧ sources.kept[j]? = some (Expr.renamed sources.aliases b.param, selection) := by
  obtain ⟨i, there⟩ := List.mem_iff_getElem?.mp inside
  obtain ⟨selection, own, related⟩ := getElem?_of_forall₂ read.flip there
  have listed : (b.param, selection) ∈ (bindings.map Binding.param).zip selections := by
    refine List.mem_of_getElem? (i := i) (List.getElem?_zip_eq_some.mpr ⟨?_, own⟩)
    rw [List.getElem?_map, there]
    rfl
  obtain ⟨j, kept⟩ := List.mem_iff_getElem?.mp (merges.found _ listed)
  exact ⟨j, selection, related, kept⟩

/-- The source of the parameter of a reference is the column of the reference. -/
theorem source_of_binding {registry : Registry σ} {schema : Schema} {scope : Scope} {s : σ}
    {place : List Nat} {names : List String}
    (merges : sources.Merges ((bindings.map Binding.param).zip selections))
    (resolved : List.Forall₂ (fun b selection =>
      ((b.reference.resolve registry schema scope).run s).1 = .ok selection) bindings selections)
    (selected : List.Forall₂ (fun selection name => Pairing.nameAt selection place = .ok name)
      (sources.kept.map Prod.snd) names) {b : Binding} (inside : b ∈ bindings) :
    ∃ (j : Nat) (column : String),
      b.reference.columnAt registry schema scope s place = some column
      ∧ (sources.kept.map Prod.fst)[j]? = some (Expr.renamed sources.aliases b.param)
      ∧ names[j]? = some column := by
  obtain ⟨j, selection, ran, kept⟩ := merges.kept_of_binding resolved inside
  have column : (sources.kept.map Prod.snd)[j]? = some selection := by
    rw [List.getElem?_map, kept]
    rfl
  obtain ⟨name, source, named⟩ := getElem?_of_forall₂ selected.flip column
  refine ⟨j, name, ?_, ?_, source⟩
  · unfold Reference.columnAt
    rcases outcome : (b.reference.resolve registry schema scope).run s with ⟨result, s'⟩
    rw [outcome] at ran
    cases ran
    change (Pairing.nameAt selection place).toOption = some name
    rw [named]
    rfl
  · rw [List.getElem?_map, kept]
    rfl

end Sources.Merges

/-- A call comes to the meaning of the body under answers that give every reference the argument of
the parameter that reads its columns. -/
theorem Function.MadeOf.call_eq_meaning {f : Function σ} {registry : Registry σ} {scope : Scope}
    {body : Expr} {sources : Sources} {selections : List Selection} {answers : Eval.Answers σ}
    {args : List Value} (made : f.MadeOf registry scope body sources)
    (resolved : (body.replaceReferences.run []).2.length = selections.length)
    (merges : sources.Merges (((body.replaceReferences.run []).2.map Binding.param).zip selections))
    (written : body.All Expr.Plain) (assigned : body.All Expr.Local)
    (count : args.length = f.arity) (unanswered : ∀ e, e.reference? = none → answers e = none)
    (given : ∀ b ∈ (body.replaceReferences.run []).2, ∃ (j : Nat) (v : Value),
      (∀ e, e.reference? = some b.reference → answers e = some (pure v))
      ∧ (sources.kept.map Prod.fst)[j]? = some (Expr.renamed sources.aliases b.param)
      ∧ args[j]? = some v) :
    f.call args = if f.skips args then pure (.ok .missing)
      else Eval.meaning registry answers f.captured body := by
  have read : (((body.replaceReferences.run []).2.map Binding.param).zip selections).map Prod.fst
      = (body.replaceReferences.run []).2.map Binding.param := List.map_fst_zip (by simp [resolved])
  have numbered := Expr.replaceReferences_numbered body
  have params : f.params.Nodup ∧ ∀ q ∈ f.params, ∃ number, q = Binding.paramName number := by
    rw [made.params, merges.names, read]
    refine ⟨numbered.nodup.filter _, fun q listed => ?_⟩
    exact numbered.exists_of_mem (List.mem_filter.mp listed).1
  rw [← made.registry]
  refine Function.call_of_runs count ?_
  rw [made.body]
  refine Parallel.runs_replaced (Parallel.called_agrees _ params.2) (fun n => Iff.rfl) ?fresh
    unanswered written assigned ?given
  case fresh =>
    intro n shared
    refine merges.lookup_fresh fun listed => ?_
    obtain ⟨number, same⟩ := numbered.exists_of_mem (read ▸ listed)
    exact shared number same
  case given =>
    intro b inside
    obtain ⟨j, v, answered, param, value⟩ := given b inside
    rw [← made.params] at param
    refine ⟨v, answered, ?_, fun shared => ?_⟩
    · change ((f.captured ++ _).reverse).lookup _ = _
      rw [List.reverse_append, List.lookup_append, lookup_param params.1 param value]
      rfl
    · obtain ⟨number, same⟩ := params.2 _ (List.mem_of_getElem? param)
      exact shared number same

namespace ArgumentPlan

/-- The function of triple `k` of an argument, called with the values of a row, does what evaluating
the body does when every reference stands for the value of the column that it selects itself at
place `k` of the shape. Only a function that passes missing values on by rows is settled by a missing
one. -/
def KeepsMeaning (registry : Registry σ) (schema : Schema) (scope : Scope) (s : σ) (kind : Kind)
    (arg : Expr) (k : Nat) (t : Triple σ) : Prop :=
  ∃ p body target selections sink shape place, Peeled.ofArgument arg = .ok p
    ∧ bodyAndTarget p = .ok (body, target)
    ∧ p.directives.mode kind.defaultMode = .ok t.function.mode
    ∧ (∀ v ∈ t.function.captured, scope.get? v.1 = some v.2)
    ∧ List.Forall₂ (fun b selection =>
        ((b.reference.resolve registry schema scope).run s).1 = .ok selection)
      (body.replaceReferences.run []).2 selections
    ∧ SinkOf registry schema scope target sink
    ∧ Pairing.IsShape selections sink shape ∧ (Shape.indices shape)[k]? = some place
    ∧ (∀ b ∈ (body.replaceReferences.run []).2, ∃ column ∈ t.sources,
      b.reference.columnAt registry schema scope s place = some column)
    ∧ ∀ row, t.function.call (t.sources.map row) =
      if p.directives.passMissing && t.function.mode == .rowWise
          && (t.sources.map row).any Value.isMissing then pure (.ok .missing)
      else Eval.meaning registry (Eval.rowAnswers registry schema scope s place row)
        t.function.captured body

theorem group_keepsMeaning {registry : Registry σ} (pure : registry.Pure) {kind : Kind}
    {index : Nat} {arg : Expr} {plan : ArgumentPlan} {schema : Schema} {scope : Scope}
    {group : List (Triple σ)} {s₁ s₂ : σ} (written : arg.All Expr.Plain)
    (planned : ofArgument registry kind index arg = .ok plan)
    (bound : (plan.bind registry schema scope).run s₁ = (.ok group, s₂)) {k : Nat} {t : Triple σ}
    (found : group[k]? = some t) (s : σ) : KeepsMeaning registry schema scope s kind arg k t := by
  obtain ⟨p, body, target, selections, sources, sink, function, pairing, peeled, split, refused, -,
    resolved, merges, made, ⟨chosen, missing⟩, named, paired, each⟩ := group_ok planned bound
  obtain ⟨-, rfl, names⟩ := each k t found
  obtain ⟨shaped, given⟩ := Pairing.ofSelections_ok paired
  obtain ⟨place, placed, selected⟩ := getElem?_of_forall₂ given names
  have steady : List.Forall₂ (fun b selection =>
      ((b.reference.resolve registry schema scope).run s).1 = .ok selection)
      (body.replaceReferences.run []).2 selections := by
    refine resolved.imp fun b selection ⟨s₁, s₂, ran⟩ => ?_
    rw [Reference.resolve_steady pure b.reference s s₁, ran]
  have count := resolved.length_eq
  have source {b : Binding} (inside : b ∈ (body.replaceReferences.run []).2) :=
    merges.source_of_binding steady selected inside
  refine ⟨p, body, target, selections, sink, pairing.shape, place, peeled, split, chosen,
    made.values, steady, named, ?_, placed, fun b inside => ?_, fun row => ?_⟩
  · refine shaped.congr fun selection => ?_
    rw [← merges.mem_selections, List.map_snd_zip (by simp [count])]
  · obtain ⟨j, column, reads, -, listed⟩ := source inside
    exact ⟨column, List.mem_of_getElem? listed, reads⟩
  rw [← missing]
  refine made.call_eq_meaning count merges
    (all_body Collected.allows_plain peeled split written) (Expr.all_local refused) ?arity
    ?unanswered ?given
  case arity =>
    rw [Function.arity, made.params, List.length_map, List.length_map,
      Pairing.length_names paired names, List.length_map]
  case unanswered =>
    intro e unreferenced
    simp [Eval.rowAnswers, unreferenced]
  case given =>
    intro b inside
    obtain ⟨j, column, reads, param, listed⟩ := source inside
    refine ⟨j, row column, fun e reference => ?_, param, ?_⟩
    · simp [Eval.rowAnswers, reference, reads]
    · rw [List.getElem?_map, listed]
      rfl

end ArgumentPlan

namespace Plan

/-- Planning and binding a call that is read keep the meaning of every argument. -/
theorem triples_keep_meaning {registry : Registry σ} (pure : registry.Pure) {text : String}
    {call : Call} {plan : Plan σ} {schema : Schema} {scope : Scope} {pipeline : Pipeline σ}
    {s s' : σ} (read : Call.read text = .ok call) (planned : ofCall registry call = .ok plan)
    (bound : (plan.bind schema scope).run s = (.ok pipeline, s')) {position k : Nat} {t : Triple σ}
    (found : (pipeline.triplesOf position)[k]? = some t) :
    ∃ kind args arg, call.kind? = .ok kind
      ∧ expandBlocks 0 call.arguments.positional = .ok args ∧ args[position]? = some arg
      ∧ ArgumentPlan.KeepsMeaning registry schema scope s kind arg k t := by
  obtain ⟨kind, args, arg, argument, group, s₁, s₂, named, expanded, original, planned, bound,
    there⟩ := triplesOf_ok planned bound found
  have written : arg.All Expr.Plain :=
    all_expandBlocks expanded (Call.all_of_read made_plain read).1 arg
      (List.mem_of_getElem? original)
  have kept := ArgumentPlan.group_keepsMeaning pure written planned bound there s
  exact ⟨kind, args, arg, named, expanded, original, kept⟩

/-- In `:y = :a + $v` both references read the same column if `v` is its name, so the function has
one source; the place of a scalar is the empty index. -/
theorem merged_sum_keeps_meaning : ∃ t : Triple Unit, t.sources = ["a"]
    ∧ t.function.call [.int 2] () = (.ok (.int 4), ())
    ∧ ∃ arg, ArgumentPlan.KeepsMeaning (Registry.empty "1") ⟨"t", [⟨"a", .int, true⟩]⟩
      (Env.ofList [("v", .string "a")]) () .transform arg 0 t := by
  let table : Schema := ⟨"t", [⟨"a", .int, true⟩]⟩
  let scope : Scope := Env.ofList [("v", .string "a")]
  let sum : Call := ⟨"transform", ⟨[.assign (.column (.name "y"))
    (.binary .add (.column (.name "a")) (.interpolated (.ident "v")) false)], []⟩⟩
  have read : Call.read "@transform(:y = :a + $v)" = .ok sum := rfl
  obtain ⟨plan, pipeline, t, planned, bound, found, sources, value⟩ :
      ∃ (plan : Plan Unit) (pipeline : Pipeline Unit) (t : Triple Unit),
        ofCall (Registry.empty "1") sum = .ok plan
        ∧ (plan.bind table scope).run () = (.ok pipeline, ())
        ∧ (pipeline.triplesOf 0)[0]? = some t ∧ t.sources = ["a"]
        ∧ t.function.call [.int 2] () = (.ok (.int 4), ()) :=
    ⟨_, _, _, rfl, rfl, rfl, rfl, rfl⟩
  have pure : (Registry.empty (σ := Unit) "1").Pure := ⟨[], rfl⟩
  obtain ⟨kind', args, arg, named, -, -, kept⟩ := triples_keep_meaning pure read planned bound found
  obtain rfl : Kind.transform = kind' := Except.ok.inj named
  exact ⟨t, sources, value, arg, kept⟩

end Plan

end TablePlan
