import TablePlan.Proofs.Argument.Inlining
import TablePlan.Proofs.Eval.Stepping
import TablePlan.Proofs.Plan.Meaning
import TablePlan.Proofs.Plan.Scoping

/-!
# Interpolating a name is writing it

Duplicate references are found twice: those that are written alike when references are replaced, and
those that read the same columns when a plan is bound. It makes no difference for the triples of an
argument which of the two finds one, so `$v` may be written as the column that `v` names.
-/

namespace TablePlan

variable {σ : Type}

/-! ### Columns of references -/

/-- The columns of a reference in a state. -/
def Reference.columns (registry : Registry σ) (schema : Schema) (scope : Scope) (s : σ)
    (r : Reference) : Except ArgumentError Selection :=
  ((r.resolve registry schema scope).run s).1

namespace BindM

variable {α β γ δ : Type}

theorem run_bind (x : BindM σ α) (f : α → BindM σ β) (s : σ) : (x >>= f).run s =
    match x.run s with
    | (.ok a, t) => (f a).run t
    | (.error e, t) => (.error e, t) := by
  simp only [ExceptT.run, Bind.bind, ExceptT.bind, ExceptT.mk, StateT.bind]
  rcases x s with ⟨_ | _, _⟩ <;> rfl

/-- Started in the state `s`, both computations leave it alone, and both fail or come to values that
are related. -/
def Agree (s : σ) (R : α → β → Prop) (x : BindM σ α) (y : BindM σ β) : Prop :=
  ∃ r r', x.run s = (r, s) ∧ y.run s = (r', s) ∧ Matches R r r'

namespace Agree

variable {s : σ} {R : α → β → Prop}

theorem lift {r : Except ArgumentError α} {r' : Except ArgumentError β} (h : Matches R r r') :
    Agree s R (liftM r) (liftM r') := by
  refine ⟨r, r', ?_, ?_, h⟩
  · cases r <;> rfl
  · cases r' <;> rfl

theorem pure {a : α} {b : β} (h : R a b) : Agree s R (pure a) (pure b) :=
  ⟨.ok a, .ok b, rfl, rfl, h⟩

/-- A computation that leaves the state alone agrees with itself. -/
theorem refl {x : BindM σ α} (kept : (x.run s).2 = s) : Agree s Eq x x :=
  ⟨(x.run s).1, (x.run s).1, Prod.ext rfl kept, Prod.ext rfl kept, .refl _⟩

theorem bind {S : γ → δ → Prop} {x : BindM σ α} {y : BindM σ β} {f : α → BindM σ γ}
    {g : β → BindM σ δ} (first : Agree s R x y)
    (second : ∀ a b, x.run s = (.ok a, s) → y.run s = (.ok b, s) → R a b →
      Agree s S (f a) (g b)) : Agree s S (x >>= f) (y >>= g) := by
  obtain ⟨r, r', left, right, related⟩ := first
  cases r with
  | error e =>
      cases r' with
      | ok b => exact related.elim
      | error e' =>
          exact ⟨.error e, .error e', by rw [run_bind, left], by rw [run_bind, right], trivial⟩
  | ok a =>
      cases r' with
      | error e => exact related.elim
      | ok b =>
          obtain ⟨q, q', left', right', related'⟩ := second a b left right related
          refine ⟨q, q', ?_, ?_, related'⟩
          · rw [run_bind, left]
            exact left'
          · rw [run_bind, right]
            exact right'

end Agree

end BindM

variable {registry : Registry σ} {schema : Schema} {scope : Scope}

namespace Reference

theorem run_resolve (pure : registry.Pure) (r : Reference) (s : σ) :
    (r.resolve registry schema scope).run s = (r.columns registry schema scope s, s) := by
  have specifier : ((r.specifier registry scope).run s).2 = s := by
    cases r with
    | static spec => rfl
    | deferred inner =>
        rw [Reference.specifier, BindM.run_bind]
        have kept := state_evaluateFor pure (.selector scope) (.interpolated inner) inner s
        rcases ran : (evaluateFor registry (.selector scope) (.interpolated inner) inner).run s with
          ⟨_ | v, t⟩ <;> rw [ran] at kept <;> cases kept
        · rfl
        · dsimp only
          split <;> rfl
  refine Prod.ext rfl ?_
  rw [resolve, BindM.run_bind]
  rcases ran : (r.specifier registry scope).run s with ⟨_ | spec, t⟩ <;> rw [ran] at specifier <;>
    cases specifier
  · rfl
  · dsimp only
    split <;> rfl

/-- Written or interpolated, a name reads the same columns. -/
theorem columns_inlined {v c : String} (value : scope.get? v = some (.string c)) {r r' : Reference}
    (h : r.Inlined v c r') (s : σ) :
    r'.columns registry schema scope s = r.columns registry schema scope s := by
  cases h with
  | same => rfl
  | named =>
      have found : Eval.eval registry (.selector scope) (.ident v) ⟨.empty, s⟩
          = (.ok (.string c), ⟨.empty, s⟩) := Eval.eval_ident_of_scope rfl rfl value
      have specifier : ((Reference.deferred (.ident v)).specifier registry scope).run s
          = (.ok (.name c), s) := by
        rw [Reference.specifier, BindM.run_bind, run_evaluateFor, found]
        rfl
      rw [columns, columns, resolve, resolve, BindM.run_bind, BindM.run_bind, specifier]
      rfl

end Reference

namespace Sources

/-- The columns that sources read, in order. -/
def selections (s : Sources) : List Selection :=
  s.kept.map Prod.snd

theorem selections_add {s : Sources} {read : List Selection} (known : s.selections = read.eraseDups)
    (param : String) (selection : Selection) :
    (s.add param selection).selections = (read ++ [selection]).eraseDups := by
  have seen : selection ∈ read ↔ ∃ k ∈ s.kept, k.2 = selection := by
    rw [← List.mem_eraseDups, ← known]
    simp [selections]
  rw [eraseDups_concat, add]
  cases found : s.kept.find? fun k => k.2 = selection with
  | some k =>
      have same : k.2 = selection := by simpa using List.find?_some found
      rw [if_pos (seen.mpr ⟨k, List.mem_of_find?_eq_some found, same⟩)]
      exact known
  | none =>
      have fresh : ¬ ∃ k ∈ s.kept, k.2 = selection := by
        rintro ⟨k, inside, same⟩
        simpa [same] using List.find?_eq_none.mp found k inside
      rw [if_neg (seen.not.mpr fresh), ← known]
      simp [selections]

/-- The columns that are kept are those of all bindings, without repetitions. -/
theorem run_ofBindings (pure : registry.Pure) {bindings : List Binding} (start : Sources)
    (read : List Selection) (known : start.selections = read.eraseDups) (s : σ) :
    ∃ r, (ofBindings registry schema scope start bindings).run s = (r, s)
      ∧ Matches (fun sources selections => sources.selections = (read ++ selections).eraseDups) r
        (bindings.mapM fun b => b.reference.columns registry schema scope s) := by
  induction bindings generalizing start read with
  | nil =>
      refine ⟨.ok start, rfl, ?_⟩
      change start.selections = (read ++ []).eraseDups
      rw [List.append_nil, known]
  | cons b rest ih =>
      rw [ofBindings, BindM.run_bind, b.reference.run_resolve pure, List.mapM_cons]
      cases b.reference.columns registry schema scope s with
      | error e => exact ⟨.error e, rfl, trivial⟩
      | ok selection =>
          obtain ⟨r, ran, related⟩ := ih _ _ (selections_add known b.param selection)
          exact ⟨r, ran, related.map_right fun sources selections known => by simpa using known⟩

/-- What is kept does not depend on repetitions among what is read. -/
theorem ofBindings_agree (pure : registry.Pure) {bindings bindings' : List Binding} {s : σ}
    (same : (bindings.map fun b => (b.reference.columns registry schema scope s).toOption).eraseDups
      = (bindings'.map fun b => (b.reference.columns registry schema scope s).toOption).eraseDups) :
    BindM.Agree s (fun a b => a.selections = b.selections)
      (ofBindings registry schema scope ⟨[], []⟩ bindings)
      (ofBindings registry schema scope ⟨[], []⟩ bindings') := by
  have read {bindings : List Binding} {selections : List Selection}
      (h : bindings.mapM (fun b => b.reference.columns registry schema scope s) = .ok selections) :
      bindings.map (fun b => (b.reference.columns registry schema scope s).toOption)
        = selections.map some := by
    rw [← List.forall₂_eq_eq_eq, List.forall₂_map_left_iff, List.forall₂_map_right_iff]
    exact (mapM_ok_iff.mp h).imp fun b selection known => by rw [known]; rfl
  have failed {bindings : List Binding} {e : ArgumentError}
      (h : bindings.mapM (fun b => b.reference.columns registry schema scope s) = .error e) :
      none ∈ bindings.map fun b => (b.reference.columns registry schema scope s).toOption := by
    obtain ⟨b, inside, known⟩ := exists_error_of_mapM h
    exact List.mem_map.mpr ⟨b, inside, by rw [known]; rfl⟩
  have injective : Function.Injective (some : Selection → Option Selection) :=
    fun _ _ h => Option.some.inj h
  obtain ⟨r, ran, first⟩ := run_ofBindings pure ⟨[], []⟩ [] rfl s
  obtain ⟨r', ran', second⟩ := run_ofBindings pure ⟨[], []⟩ [] rfl s
  refine ⟨r, r', ran, ran', ?_⟩
  cases left : bindings.mapM fun b => b.reference.columns registry schema scope s with
  | error e =>
      cases right : bindings'.mapM fun b => b.reference.columns registry schema scope s with
      | error e' =>
          obtain ⟨_, rfl⟩ := (left ▸ first).exists_error
          obtain ⟨_, rfl⟩ := (right ▸ second).exists_error
          trivial
      | ok selections =>
          have inside := List.mem_eraseDups.mpr (failed left)
          rw [same, List.mem_eraseDups, read right] at inside
          simp at inside
  | ok selections =>
      cases right : bindings'.mapM fun b => b.reference.columns registry schema scope s with
      | error e' =>
          have inside := List.mem_eraseDups.mpr (failed right)
          rw [← same, List.mem_eraseDups, read left] at inside
          simp at inside
      | ok selections' =>
          rw [read left, read right, eraseDups_map injective, eraseDups_map injective] at same
          obtain ⟨sources, rfl, kept⟩ := (left ▸ first).exists_ok
          obtain ⟨sources', rfl, kept'⟩ := (right ▸ second).exists_ok
          exact kept.trans ((List.map_injective_iff.mpr injective same).trans kept'.symm)

end Sources

/-! ### Planning -/

namespace Expr

theorem Inlined.plain {v c : String} {e e' : Expr} (h : Inlined v c e e') (written : e.All Plain) :
    e'.All Plain := by
  induction h with
  | here => exact all_iff.mpr ⟨trivial, nofun⟩
  | @part e a a' before after outside parts value inner ih =>
      rw [all_iff, parts] at written
      rw [all_iff, children_withChildren (length_parts parts)]
      refine ⟨?_, fun b inside => ?_⟩
      · have own := written.1
        unfold withChildren
        split <;> trivial
      · obtain old | rfl | old := by simpa using inside
        · exact written.2 b (by simp [old])
        · exact ih (written.2 a (by simp))
        · exact written.2 b (by simp [old])

/-- Targets are left alone, so no column appears or goes away there. -/
theorem Inlined.local_iff {v c : String} {e e' : Expr} (h : Inlined v c e e') :
    e'.All Local ↔ e.All Local := by
  induction h with
  | here => simp [All, nodes, Local]
  | @part e a a' before after outside parts value inner ih =>
      rw [all_iff, all_iff (e := e), children_withChildren (length_parts parts), parts]
      have own : Local (e.withChildren (before ++ a' :: after)) ↔ Local e := by
        cases e with
        | assign target x =>
            obtain ⟨x', written, -⟩ := (part (v := v) (c := c) outside parts value inner).of_assign
            rw [written]
            rfl
        | _ =>
            constructor <;> intro _
            · trivial
            · unfold withChildren
              split <;> trivial
      simp only [List.forall_mem_append, List.forall_mem_cons, own, ih]

/-- A name in a replaced body is that of a parameter or is written, and targets are as written. -/
def Tidy (bindings : List Binding) : Expr → Prop
  | ident name => (∃ b ∈ bindings, b.param = name) ∨ ∀ number, name ≠ Binding.paramName number
  | assign target _ => target.All Plain
  | _ => True

theorem all_tidy {body : Expr} (written : body.All Plain) (assigned : body.All Local) :
    (body.replaceReferences.run []).1.All (Tidy (body.replaceReferences.run []).2) := by
  refine (replaceReferences_adds_unread (W := Reference.Written) (Q := fun n => n.Plain ∧ n.Local)
    (R := fun bindings _ e' => e'.All (Tidy bindings)) ?grow ?answer ?rebuild
    (fun n inside => ⟨written n inside, assigned n inside⟩) (Binding.sound_nil _)).2.2
  case grow =>
    intro e e' bindings more grown tidy n inside
    have old := tidy n inside
    cases n with
    | ident name => exact old.imp_left fun ⟨b, listed, is⟩ => ⟨b, grown.subset listed, is⟩
    | assign target x => exact old
    | _ => trivial
  case answer =>
    intro e r bindings all reference sound
    have plain : e.All Plain := fun n inside => (all n inside).1
    have own := written_of_reference? plain reference
    refine (Binding.bind_adds own sound).mono fun more param _ => ?_
    rintro ⟨b, inside, rfl, -⟩
    exact all_iff.mpr ⟨.inl ⟨b, inside, rfl⟩, nofun⟩
  case rebuild =>
    intro e cs bindings all unreferenced parts
    refine all_iff.mpr ⟨?_, fun c' child => ?_⟩
    · cases e with
      | ident name => exact .inr (all _ (self_mem_nodes _)).1
      | assign target x =>
          cases parts with
          | cons first parts =>
              cases parts with
              | cons second parts =>
                  cases parts
                  have kept := first.2 (all _ (self_mem_nodes _)).2
                  subst kept
                  exact fun n inside => (all n (mem_nodes_of_child (by simp [children]) inside)).1
      | _ =>
          unfold withChildren
          split <;> trivial
    · rw [children_withChildren parts.length_eq.symm] at child
      obtain ⟨c, -, tidy, -⟩ := exists_of_mem_right parts child
      exact tidy

section

variable {body : Expr}

theorem not_param {body : Expr} {n : String} (plain : ∀ number, n ≠ Binding.paramName number) :
    n ∉ (body.replaceReferences.run []).2.map Binding.param := by
  intro listed
  obtain ⟨number, same⟩ := (replaceReferences_numbered body).exists_of_mem listed
  exact plain number same

theorem names_of_tidy (written : body.All Plain) (assigned : body.All Local) {n : String}
    (inside : ident n ∈ (body.replaceReferences.run []).1.nodes) :
    n ∈ (body.replaceReferences.run []).2.map Binding.param ∨ n ≠ hole :=
  (all_tidy written assigned _ inside).imp
    (fun ⟨b, listed, is⟩ => List.mem_map.mpr ⟨b, listed, is⟩) fun plain => plain 0

theorem locals_of_tidy (written : body.All Plain) (assigned : body.All Local) {n : String}
    (bound : n ∈ (body.replaceReferences.run []).1.localNames) :
    n ∉ (body.replaceReferences.run []).2.map Binding.param := by
  obtain ⟨target, x, inside, bound⟩ := mem_localNames.mp bound
  have plain : target.All Plain := all_tidy written assigned _ inside
  refine not_param ?_
  obtain rfl | rfl | ⟨items, rfl, item | item⟩ := mem_boundNames.mp bound
  · exact plain _ (self_mem_nodes _)
  · exact plain _ (self_mem_nodes _)
  · exact plain _ (child_mem_nodes item)
  · exact plain _ (child_mem_nodes item)

/-- What is known of the template of a body without its references depends on the shell. -/
theorem template_of_shell {σ : Type} (registry : Registry σ) (written : body.All Plain)
    (assigned : body.All Local) :
    (body.replaceReferences.run []).1.freeNames
        ((body.replaceReferences.run []).2.map Binding.param) = body.shell.freeNames [hole]
      ∧ (body.replaceReferences.run []).1.naming
        ((body.replaceReferences.run []).2.map Binding.param) = body.shell.naming [hole]
      ∧ ArgumentPlan.checkCalls registry (body.replaceReferences.run []).1
        = ArgumentPlan.checkCalls registry body.shell := by
  have names := fun n => names_of_tidy (n := n) written assigned
  rw [← rename_replaceReferences written]
  refine ⟨?_, ?_, ?_⟩
  · rw [freeNames_blanks names fun n => locals_of_tidy written assigned]
  · rw [naming_blanks names]
  · rw [checkCalls_rename]

end

end Expr

namespace ArgumentPlan

/-- The plan of an argument with the given body. -/
def ofBody (index : Nat) (source : String) (directives : Directives) (mode : Mode) (target : Target)
    (body : Expr) : ArgumentPlan :=
  ⟨index, source, directives, (body.replaceReferences.run []).2,
    Template.ofBody ((body.replaceReferences.run []).2.map Binding.param)
      (body.replaceReferences.run []).1 mode directives.passMissing, target⟩

/-- Plans of which the second has a name written out in the body. -/
inductive Inlined (v c : String) : ArgumentPlan → ArgumentPlan → Prop
  | ofBody {index : Nat} {source source' : String} {directives : Directives} {mode : Mode}
    {target : Target} {body body' : Expr} (written : body.All Expr.Plain)
    (assigned : body.All Expr.Local) (inlined : Expr.Inlined v c body body') :
    Inlined v c (ofBody index source directives mode target body)
      (ofBody index source' directives mode target body')

/-- A body without assignments to columns is accepted. -/
theorem refuseColumnTargets_of_local {body : Expr} (h : body.All Expr.Local) :
    refuseColumnTargets body = .ok () := by
  simp only [refuseColumnTargets]
  split
  · rename_i target value found
    have inside := List.mem_of_find?_eq_some found
    have test := List.find?_some found
    obtain ⟨k, there, reference⟩ := List.find?_isSome.mp test
    rw [h _ inside k there] at reference
    cases reference
  · rfl

/-- An argument in which a name is written out is planned the same way. -/
theorem ofArgument_matches {v c : String} (registry : Registry σ) (kind : Kind) (index : Nat)
    {arg arg' : Expr} (written : arg.All Expr.Plain) (h : Expr.Inlined v c arg arg') :
    Matches (Inlined v c) (ofArgument registry kind index arg)
      (ofArgument registry kind index arg') := by
  refine (Peeled.ofArgument_matches h).bind_of_eq fun p p' peeled _ related => ?_
  rw [related.directives]
  refine Matches.bind_same fun mode _ => ?_
  refine (bodyAndTarget_matches related).bind_of_eq fun x y split _ inlined => ?_
  obtain ⟨body, target⟩ := x
  obtain ⟨body', target'⟩ := y
  obtain ⟨inlined, same⟩ := inlined
  dsimp only at inlined same ⊢
  subst same
  have plain := all_body Collected.allows_plain peeled split written
  have refused : Matches (fun _ _ => body.All Expr.Local) (refuseColumnTargets body)
      (refuseColumnTargets body') := by
    cases first : refuseColumnTargets body with
    | ok =>
        rw [refuseColumnTargets_of_local (inlined.local_iff.mpr (Expr.all_local first))]
        exact Expr.all_local first
    | error e =>
        cases second : refuseColumnTargets body' with
        | ok =>
            have assigned := inlined.local_iff.mp (Expr.all_local second)
            rw [refuseColumnTargets_of_local assigned] at first
            cases first
        | error e' => trivial
  refine refused.bind fun _ _ assigned => ?_
  have calls : checkCalls registry (body'.replaceReferences.run []).1
      = checkCalls registry (body.replaceReferences.run []).1 := by
    rw [(Expr.template_of_shell registry plain assigned).2.2,
      (Expr.template_of_shell registry (inlined.plain plain) (inlined.local_iff.mpr assigned)).2.2,
      inlined.shell_eq]
  change Matches _ (checkCalls registry (body.replaceReferences.run []).1 >>= _)
    (checkCalls registry (body'.replaceReferences.run []).1 >>= _)
  rw [calls]
  exact Matches.bind_same fun _ _ => .ofBody plain assigned inlined

end ArgumentPlan

end TablePlan
