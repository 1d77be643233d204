import TablePlan.Function.Basic
import TablePlan.Proofs.Effects
import TablePlan.Proofs.Expr.Traversal

/-!
# Templates and functions

Merging parameters renames identifiers and touches nothing else. A function of a template has its
body and parameters, and a value from the scope of the caller for every name it captures.
-/

namespace TablePlan

namespace Expr

/-- What an identifier becomes under aliases. -/
def renamed (aliases : List (String × String)) (name : String) : String :=
  (aliases.lookup name).getD name

/-- The answers of a renaming. -/
def renameAnswer (aliases : List (String × String)) : Expr → Option Expr
  | ident name => some (ident (renamed aliases name))
  | _ => none

theorem rename_eq_replace (aliases : List (String × String)) (e : Expr) :
    e.rename aliases = e.replace (renameAnswer aliases) := by
  have same : (fun e : Expr => (renameAnswer aliases e).map (pure : Expr → Id Expr)) = fun
      | ident name => some (pure (ident ((aliases.lookup name).getD name)))
      | _ => none := by
    funext e
    cases e <;> rfl
  exact congrArg (fun f => Id.run (e.substitute f)) same.symm

@[simp] theorem rename_ident (aliases : List (String × String)) (name : String) :
    (ident name).rename aliases = ident (renamed aliases name) := by
  rw [rename_eq_replace]
  exact replace_of_some rfl

theorem renameAnswer_none {aliases : List (String × String)} {e : Expr}
    (h : ∀ name, e ≠ ident name) : renameAnswer aliases e = none := by
  cases e
  case ident name => exact absurd rfl (h name)
  all_goals rfl

/-- Every other expression is renamed in its parts. -/
theorem rename_eq {aliases : List (String × String)} {e : Expr} (h : ∀ name, e ≠ ident name) :
    e.rename aliases = e.mapParts (rename aliases) := by
  rw [rename_eq_replace, replace_of_none (renameAnswer_none h)]
  exact mapParts_congr fun c _ => (rename_eq_replace aliases c).symm

/-- An expression that keeps its name if it is one is renamed in whatever parts it has. -/
theorem rename_withChildren {aliases : List (String × String)} {e : Expr} {cs : List Expr}
    (kept : ∀ name, e = ident name → renamed aliases name = name)
    (count : cs.length = e.children.length) :
    (e.withChildren cs).rename aliases = e.withChildren (cs.map (rename aliases)) := by
  by_cases named : ∃ name, e = ident name
  · obtain ⟨name, rfl⟩ := named
    obtain rfl := List.eq_nil_of_length_eq_zero count
    change (ident name).rename aliases = ident name
    rw [rename_ident, kept name rfl]
  · have head : ∀ name, e.withChildren cs ≠ ident name := by
      intro name same
      refine named ⟨name, ?_⟩
      unfold withChildren at same
      split at same <;> first | exact same | cases same
    rw [rename_eq head, mapParts_withChildren count]

/-- Renaming goes from node to node. -/
theorem nodes_rename (aliases : List (String × String)) (e : Expr) :
    (e.rename aliases).nodes = e.nodes.map (rename aliases) := by
  induction e using childInduction with
  | step e ih =>
      by_cases named : ∃ name, e = ident name
      · obtain ⟨name, rfl⟩ := named
        rw [rename_ident]
        simp [nodes]
      · have own : e.rename aliases = e.mapParts (rename aliases) :=
          rename_eq fun name is => named ⟨name, is⟩
        rw [nodes_eq, own, children_mapParts, nodes_eq e, List.map_cons, own, List.map_flatMap,
          List.flatMap_map]
        exact congrArg _ (List.flatMap_congr ih)

/-- A renaming that leaves the names of an expression alone changes nothing. -/
theorem rename_eq_self {aliases : List (String × String)} {e : Expr}
    (kept : ∀ name, ident name ∈ e.nodes → renamed aliases name = name) :
    e.rename aliases = e := by
  induction e using childInduction with
  | step e ih =>
      by_cases named : ∃ name, e = ident name
      · obtain ⟨name, rfl⟩ := named
        rw [rename_ident, kept name (self_mem_nodes _)]
      · have parts : ∀ c ∈ e.children, c.rename aliases = id c := fun c child =>
          ih c child fun name inside => kept name (mem_nodes_of_child child inside)
        rw [rename_eq fun name is => named ⟨name, is⟩, mapParts_congr parts, mapParts_id]

/-- A property of nodes survives a renaming if identifiers have it and rebuilding keeps it. -/
theorem All.rename {P : Expr → Prop} {aliases : List (String × String)}
    (names : ∀ name, P (ident name)) (parts : ∀ e f, P e → P (e.mapParts f)) {e : Expr}
    (h : e.All P) : (e.rename aliases).All P := by
  induction e using childInduction with
  | step e ih =>
      by_cases named : ∃ name, e = ident name
      · obtain ⟨name, rfl⟩ := named
        rw [rename_ident]
        exact all_iff.mpr ⟨names _, nofun⟩
      · rw [rename_eq fun name is => named ⟨name, is⟩, all_iff, children_mapParts]
        refine ⟨parts e _ (all_iff.mp h).1, fun c' mapped => ?_⟩
        obtain ⟨c, child, rfl⟩ := List.mem_map.mp mapped
        exact ih c child (h.child child)

end Expr

namespace Template

@[simp] theorem params_mergeParams (t : Template) (aliases : List (String × String)) :
    (t.mergeParams aliases).params = t.params.filter fun p => (aliases.lookup p).isNone := by
  unfold mergeParams
  split
  · rename_i empty
    obtain rfl := List.isEmpty_iff.mp empty
    simp
  · rfl

@[simp] theorem body_mergeParams (t : Template) (aliases : List (String × String)) :
    (t.mergeParams aliases).body = t.body.rename aliases := by
  unfold mergeParams
  split
  · rename_i empty
    obtain rfl := List.isEmpty_iff.mp empty
    exact (Expr.rename_eq_self fun _ _ => rfl).symm
  · rfl

@[simp] theorem mode_mergeParams (t : Template) (aliases : List (String × String)) :
    (t.mergeParams aliases).mode = t.mode := by
  unfold mergeParams
  split <;> rfl

@[simp] theorem passMissing_mergeParams (t : Template) (aliases : List (String × String)) :
    (t.mergeParams aliases).passMissing = t.passMissing := by
  unfold mergeParams
  split <;> rfl

@[simp] theorem captures_mergeParams (t : Template) (aliases : List (String × String)) :
    (t.mergeParams aliases).captures = t.captures := by
  unfold mergeParams
  split <;> rfl

@[simp] theorem naming_mergeParams (t : Template) (aliases : List (String × String)) :
    (t.mergeParams aliases).naming = t.naming := by
  unfold mergeParams
  split <;> rfl

/-- What a function takes over from its template. -/
theorem instantiate_ok {σ : Type} {t : Template} {registry : Registry σ} {scope : Scope}
    {f : Function σ} (h : t.instantiate registry scope = .ok f) :
    f.params = t.params ∧ f.body = t.body ∧ f.mode = t.mode ∧ f.passMissing = t.passMissing
      ∧ f.registry = registry
      ∧ f.captured.map Prod.fst = t.captures
      ∧ ∀ v ∈ f.captured, scope.get? v.1 = some v.2 := by
  obtain ⟨captured, each, h⟩ := ok_of_bind h
  cases h
  have found : List.Forall₂ (fun name v => v.1 = name ∧ scope.get? name = some v.2)
      t.captures captured := by
    refine (mapM_ok_iff.mp each).imp fun name v got => ?_
    unfold capture at got
    split at got
    · cases got
      exact ⟨rfl, ‹_›⟩
    · cases got
  clear each h
  refine ⟨rfl, rfl, rfl, rfl, rfl, ?_, fun v captured => ?_⟩
  · generalize t.captures = names at found
    dsimp only
    induction found with
    | nil => rfl
    | cons first _ ih => exact congrArg₂ _ first.1 ih
  · obtain ⟨name, -, rfl, got⟩ := exists_of_mem_right found captured
    exact got

end Template

end TablePlan
