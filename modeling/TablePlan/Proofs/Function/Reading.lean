import Mathlib.Data.List.Induction
import TablePlan.Plan.Basic
import TablePlan.Proofs.Expr.Plain
import TablePlan.Proofs.Function.Merging
import TablePlan.Proofs.Function.References

/-!
# What a body reads

The references of a body are listed from left to right. Replacing them by parameters binds each at
its first occurrence, so what the parameters read is what the references read, without repetitions.

Besides its references a body has a shell, in which they all look the same. What is known of a
template without its references depends on the shell alone: the names it captures, the functions it
calls, the way its sinks are named.
-/

namespace TablePlan

variable {α β : Type}

/-! ### First occurrences -/

section

variable [BEq α] [LawfulBEq α] [BEq β] [LawfulBEq β]

theorem eraseDups_concat (seen : List α) (a : α) :
    (seen ++ [a]).eraseDups = if a ∈ seen then seen.eraseDups else seen.eraseDups ++ [a] := by
  rw [List.eraseDups_append]
  split <;> simp [List.removeAll, List.eraseDups_cons, *]

theorem eraseDups_append_congr {first second : List α} (same : first.eraseDups = second.eraseDups)
    (later : List α) : (first ++ later).eraseDups = (second ++ later).eraseDups := by
  have members (a : α) : a ∈ first ↔ a ∈ second := by
    rw [← List.mem_eraseDups, same, List.mem_eraseDups]
  have left : later.removeAll first = later.removeAll second :=
    List.filter_congr fun a _ => by simp [members a]
  rw [List.eraseDups_append, List.eraseDups_append, same, left]

theorem nodup_eraseDups (items : List α) : items.eraseDups.Nodup := by
  induction items using List.reverseRecOn with
  | nil => simp
  | append_singleton seen a ih =>
      rw [eraseDups_concat]
      split
      · exact ih
      · refine ih.append (List.nodup_singleton a) (List.disjoint_singleton.mpr ?_)
        rwa [List.mem_eraseDups]

theorem eraseDups_map {f : α → β} (injective : Function.Injective f) (items : List α) :
    (items.map f).eraseDups = items.eraseDups.map f := by
  induction items using List.reverseRecOn with
  | nil => rfl
  | append_singleton seen a ih =>
      rw [List.map_append, List.map_singleton, eraseDups_concat, eraseDups_concat, ih]
      simp only [List.mem_map_of_injective injective]
      split <;> simp

end

/-! ### References -/

namespace Expr

open Binding

mutual

/-- The references of an expression from left to right, without those inside an interpolation. -/
def references : Expr → List Reference
  | column c => [.static c.toSpec]
  | interpolated inner => [.deferred inner]
  | literal _ | ident _ | splat _ => []
  | unary _ inner _ | directed _ inner => inner.references
  | call _ items _ | vector items | tuple items | block items => referencesOfItems items
  | binary _ left right _ | assign left right => left.references ++ right.references
  | index base indices => base.references ++ referencesOfItems indices
  | conditional cond yes no => cond.references ++ yes.references ++ no.references
  | matrix rows => referencesOfRows rows
  | record fields => referencesOfFields fields

/-- The references of several expressions. -/
def referencesOfItems : List Expr → List Reference
  | [] => []
  | item :: rest => item.references ++ referencesOfItems rest

/-- The references of the rows of a matrix. -/
def referencesOfRows : List (List Expr) → List Reference
  | [] => []
  | row :: rest => referencesOfItems row ++ referencesOfRows rest

/-- The references of the fields of a record. -/
def referencesOfFields : List (String × Expr) → List Reference
  | [] => []
  | (_, value) :: rest => value.references ++ referencesOfFields rest

end

theorem referencesOfItems_eq (items : List Expr) :
    referencesOfItems items = items.flatMap references := by
  induction items with
  | nil => rfl
  | cons item rest ih => simp [referencesOfItems, ih]

theorem referencesOfRows_eq (rows : List (List Expr)) :
    referencesOfRows rows = rows.flatten.flatMap references := by
  induction rows with
  | nil => rfl
  | cons row rest ih => simp [referencesOfRows, referencesOfItems_eq, ih]

theorem referencesOfFields_eq (fields : List (String × Expr)) :
    referencesOfFields fields = (fields.map Prod.snd).flatMap references := by
  induction fields with
  | nil => rfl
  | cons field rest ih => simp [referencesOfFields, ih]

theorem references_of_some {e : Expr} {r : Reference} (h : e.reference? = some r) :
    e.references = [r] := by
  cases e <;> cases h <;> rfl

/-- The references of an expression that is none itself are those of its direct parts. -/
theorem references_of_none {e : Expr} (h : e.reference? = none) :
    e.references = e.children.flatMap references := by
  cases e with
  | column | interpolated => cases h
  | _ =>
      simp [references, children, referencesOfItems_eq, referencesOfRows_eq, referencesOfFields_eq]

theorem written_of_references {e : Expr} (written : e.All Plain) :
    ∀ r ∈ e.references, r.Written := by
  induction e using childInduction with
  | step e ih =>
      intro r inside
      cases reference : e.reference? with
      | some own =>
          rw [references_of_some reference, List.mem_singleton] at inside
          exact inside ▸ written_of_reference? written reference
      | none =>
          rw [references_of_none reference] at inside
          obtain ⟨c, child, inside⟩ := List.mem_flatMap.mp inside
          exact ih c child (written.child child) r inside

/-- The references of an expression are bound one after another, from left to right. -/
theorem bindings_replaceReferences (e : Expr) (bindings : List Binding) :
    (e.replaceReferences.run bindings).2 = e.references.foldl enter bindings := by
  induction e using childInduction generalizing bindings with
  | step e ih =>
      rw [replaceReferences, substitute_eq]
      cases reference : e.reference? with
      | some r =>
          rw [references_of_some reference]
          rfl
      | none =>
          rw [references_of_none reference, Option.map_none, Option.getD_none, mapChildren_eq]
          change ((e.children.mapM replaceReferences).run bindings).2 = _
          generalize e.children = cs at ih
          induction cs generalizing bindings with
          | nil => rfl
          | cons c rest later =>
              rw [List.forall_mem_cons] at ih
              rw [List.mapM_cons, List.flatMap_cons, List.foldl_append, ← ih.1, ← later _ ih.2]
              rfl

variable [BEq β] [LawfulBEq β]

theorem eraseDups_enter (f : Reference → β) {r : Reference} (own : r.Written)
    {bindings : List Binding} (sound : Sound Reference.Written bindings) :
    ((enter bindings r).map (f ·.reference)).eraseDups
      = (bindings.map (f ·.reference) ++ [f r]).eraseDups := by
  rw [enter_eq]
  split
  · rename_i known
    obtain ⟨b, inside, like⟩ := List.any_eq_true.mp known
    have same : b.reference = r := Reference.eq_of_same (sound.2 b inside) own like
    have seen : f r ∈ bindings.map (f ·.reference) := List.mem_map.mpr ⟨b, inside, by rw [same]⟩
    rw [eraseDups_concat, if_pos seen]
  · rw [List.map_append, List.map_singleton]

/-- What the parameters of an expression read is what its references read, without repetitions. -/
theorem eraseDups_replaceReferences (f : Reference → β) {e : Expr} (written : e.All Plain)
    {bindings : List Binding} (sound : Sound Reference.Written bindings) :
    ((e.replaceReferences.run bindings).2.map (f ·.reference)).eraseDups
      = (bindings.map (f ·.reference) ++ e.references.map f).eraseDups := by
  rw [bindings_replaceReferences]
  have own := written_of_references written
  generalize e.references = references at own
  induction references generalizing bindings with
  | nil => exact congrArg List.eraseDups (List.append_nil _).symm
  | cons r rest ih =>
      rw [List.forall_mem_cons] at own
      have later := ih (sound.enter own.1) own.2
      rw [List.foldl_cons, later, List.map_cons, List.append_cons]
      exact eraseDups_append_congr (eraseDups_enter f own.1 sound) _

/-! ### Shells -/

/-- The name that stands for every reference in a shell; no parameter has it. -/
def hole : String :=
  paramName 0

/-- What a shell has in place of a node, if not the node itself. -/
def shellAnswer (e : Expr) : Option Expr :=
  if e.isReference then some (ident hole) else none

/-- The expression with the same name in place of every reference. -/
def shell (e : Expr) : Expr :=
  e.replace shellAnswer

theorem shell_of_reference {e : Expr} (h : e.isReference = true) : e.shell = ident hole :=
  replace_of_some (if_pos h)

theorem shell_of_unread {e : Expr} (h : e.isReference = false) : e.shell = e.mapParts shell :=
  replace_of_none (if_neg (by rw [h]; decide))

/-- Every parameter is renamed to the name for references. -/
def blanks (params : List String) : List (String × String) :=
  params.map (·, hole)

theorem renamed_blanks (params : List String) (name : String) :
    renamed (blanks params) name = if name ∈ params then hole else name := by
  unfold renamed blanks
  induction params with
  | nil => rfl
  | cons p rest ih =>
      rw [List.map_cons, List.lookup_cons]
      by_cases same : name = p
      · simp [same]
      · simp [beq_eq_false_iff_ne.mpr same, same, ih]

/-- With its parameters renamed to one name, a body is the shell of what it was made of. -/
theorem rename_replaceReferences {e : Expr} (written : e.All Plain) :
    (e.replaceReferences.run []).1.rename (blanks ((e.replaceReferences.run []).2.map param))
      = e.shell := by
  have adds := replaceReferences_adds (W := Reference.Written) (Q := Plain)
    (R := fun bindings e e' => ∀ aliases : List (String × String),
      (∀ n, (∀ number, n ≠ paramName number) → renamed aliases n = n) →
      (∀ b ∈ bindings, renamed aliases b.param = hole) → e'.rename aliases = e.shell)
    ?grow ?answer ?rebuild written (sound_nil _)
  case grow =>
    intro e e' bindings more grown h aliases plain given
    exact h aliases plain fun b inside => given b (grown.subset inside)
  case answer =>
    intro e r bindings all reference sound
    refine (bind_adds (written_of_reference? all reference) sound).mono fun more p _ => ?_
    rintro ⟨b, inside, rfl, -⟩ aliases - given
    rw [rename_ident, given b inside, shell_of_reference (isReference_of_reference? reference)]
  case rebuild =>
    intro e cs bindings all unreferenced parts aliases plain given
    have kept : ∀ name, e = ident name → renamed aliases name = name := by
      rintro name rfl
      exact plain name (all _ (self_mem_nodes _))
    have shells : cs.map (rename aliases) = e.children.map shell := by
      rw [← List.forall₂_eq_eq_eq, List.forall₂_map_left_iff, List.forall₂_map_right_iff]
      exact parts.flip.imp fun c' c related => related aliases plain given
    rw [rename_withChildren kept parts.length_eq.symm, shells,
      shell_of_unread (isReference_eq_false unreferenced), mapParts]
  refine adds.2.2 _ (fun n plain => ?_) fun b inside => ?_
  · refine (renamed_blanks _ n).trans (if_neg fun listed => ?_)
    obtain ⟨number, same⟩ := (replaceReferences_numbered e).exists_of_mem listed
    exact plain number same
  · exact (renamed_blanks _ _).trans (if_pos (List.mem_map_of_mem inside))

section

variable {params : List String} {e : Expr}

/-- Renaming parameters does not change what an expression binds if it binds none of them. -/
theorem boundNames_blanks (bound : ∀ n ∈ e.boundNames, n ∉ params) :
    (e.rename (blanks params)).boundNames = e.boundNames := by
  have kept {n : String} (inside : n ∈ e.boundNames) : renamed (blanks params) n = n := by
    rw [renamed_blanks, if_neg (bound n inside)]
  cases e with
  | ident n => rw [rename_ident, kept (by simp [boundNames])]
  | tuple items =>
      rw [rename_eq (by simp), mapParts_eq]
      dsimp only [boundNames]
      rw [List.filterMap_map]
      refine List.filterMap_congr fun item inside => ?_
      cases item with
      | ident n =>
          have own : n ∈ (tuple items).boundNames := List.mem_filterMap.mpr ⟨_, inside, rfl⟩
          simp [kept own]
      | _ => rw [Function.comp_apply, rename_eq (by simp), mapParts_eq]
  | _ => simp [rename_eq, mapParts_eq, boundNames]

theorem localNames_blanks (locals : ∀ n ∈ e.localNames, n ∉ params) :
    (e.rename (blanks params)).localNames = e.localNames := by
  rw [localNames, nodes_rename, List.flatMap_map]
  refine List.flatMap_congr fun n inside => ?_
  cases n with
  | assign target value =>
      rw [rename_eq (by simp), mapParts_eq]
      refine boundNames_blanks fun m bound => locals m (List.mem_flatMap.mpr ⟨_, inside, bound⟩)
  | ident name => rw [rename_ident]
  | _ => rw [rename_eq (by simp), mapParts_eq]

/-- The names that a body captures show in its shell. -/
theorem freeNames_blanks (names : ∀ n, ident n ∈ e.nodes → n ∈ params ∨ n ≠ hole)
    (locals : ∀ n ∈ e.localNames, n ∉ params) :
    (e.rename (blanks params)).freeNames [hole] = e.freeNames params := by
  rw [freeNames, freeNames, localNames_blanks locals, nodes_rename, List.filterMap_map]
  refine congrArg (List.foldl _ []) (List.filterMap_congr fun n inside => ?_)
  cases n with
  | ident name =>
      rw [Function.comp_apply, rename_ident, renamed_blanks]
      by_cases listed : name ∈ params
      · simp [listed]
      · have other : name ≠ hole := (names name inside).resolve_left listed
        simp [listed, other]
  | _ => rw [Function.comp_apply, rename_eq (by simp), mapParts_eq]

theorem isParam_blanks (names : ∀ n, e = ident n → n ∈ params ∨ n ≠ hole) :
    isParam [hole] (e.rename (blanks params)) = isParam params e := by
  cases e with
  | ident name =>
      rw [rename_ident, renamed_blanks]
      by_cases listed : name ∈ params
      · simp [isParam, listed]
      · have other : name ≠ hole := (names name rfl).resolve_left listed
        simp [isParam, listed, other]
  | _ =>
      rw [rename_eq (by simp), mapParts_eq]
      rfl

/-- How sinks are named after a body shows in its shell. -/
theorem naming_blanks (names : ∀ n, ident n ∈ e.nodes → n ∈ params ∨ n ≠ hole) :
    (e.rename (blanks params)).naming [hole] = e.naming params := by
  have own := isParam_blanks (e := e) fun n is => names n (is ▸ self_mem_nodes e)
  cases e with
  | call func args dotted =>
      have whole : (call func args dotted).rename (blanks params)
          = call func (args.map (rename (blanks params))) dotted := by
        rw [rename_eq (by simp), mapParts_eq]
      have each : (args.map (rename (blanks params))).all (isParam [hole])
          = args.all (isParam params) := by
        rw [List.all_map, Bool.eq_iff_iff, List.all_eq_true, List.all_eq_true]
        refine forall₂_congr fun c inside => ?_
        have listed : c ∈ (call func args dotted).nodes := child_mem_nodes inside
        rw [Function.comp_apply, isParam_blanks fun n is => names n (is ▸ listed)]
      rw [whole] at own ⊢
      cases dotted with
      | true => rfl
      | false => simp only [naming, each, List.isEmpty_map]
  | ident name =>
      rw [rename_ident] at own ⊢
      simp only [naming, own]
  | _ =>
      simp [rename_eq, mapParts_eq, naming, isParam]

/-- The functions that a body calls show in its shell. -/
theorem checkCalls_rename {σ : Type} (registry : Registry σ) (aliases : List (String × String))
    (e : Expr) :
    ArgumentPlan.checkCalls registry (e.rename aliases) = ArgumentPlan.checkCalls registry e := by
  rw [ArgumentPlan.checkCalls, nodes_rename, ArgumentPlan.checkCalls]
  induction e.nodes with
  | nil => rfl
  | cons n rest ih =>
      refine congrArg₂ (fun x (y : Unit → Except ArgumentError Unit) => x >>= y) ?_
        (funext fun _ => ih)
      cases n with
      | ident name => rw [rename_ident]
      | call func args dotted =>
          rw [rename_eq (by simp), mapParts_eq]
          simp only [List.length_map]
      | _ => rw [rename_eq (by simp), mapParts_eq]

end

end Expr

end TablePlan
