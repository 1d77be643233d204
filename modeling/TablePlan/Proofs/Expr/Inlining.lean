import TablePlan.Argument.Peeled
import TablePlan.Proofs.Eval.Parallel
import TablePlan.Proofs.Function.Reading

/-!
# Interpolated names written out

An interpolation of a single name may be replaced by the column that the name stands for. The
references of the expression stay the same one by one, except that one of them is known from the
text now, and everything around them stays as it is.
-/

namespace TablePlan

variable {σ : Type}

namespace Reference

/-- The second reference is the column `c` where the first one is the value of `v`. -/
inductive Inlined (v c : String) : Reference → Reference → Prop
  | same (r : Reference) : Inlined v c r r
  | named : Inlined v c (.deferred (.ident v)) (.static (.name c))

end Reference

namespace Expr

/-- One interpolation of the name `v`, which is neither in the target of an assignment nor inside
another interpolation, is replaced by a reference to the column `c`. -/
inductive Inlined (v c : String) : Expr → Expr → Prop
  | here : Inlined v c (interpolated (ident v)) (column (.name c))
  | part {e a a' : Expr} {before after : List Expr} (outside : e.isReference = false)
    (parts : e.children = before ++ a :: after)
    (value : ∀ target x, e = assign target x → before ≠ []) (inner : Inlined v c a a') :
    Inlined v c e (e.withChildren (before ++ a' :: after))

namespace Inlined

variable {v c : String} {e e' : Expr}

theorem length_parts {a a' : Expr} {before after : List Expr}
    (parts : e.children = before ++ a :: after) :
    (before ++ a' :: after).length = e.children.length := by
  simp [parts]

/-- Shells do not tell references apart. -/
theorem shell_eq (h : Inlined v c e e') : e'.shell = e.shell := by
  induction h with
  | here => rw [shell_of_reference rfl, shell_of_reference rfl]
  | @part e a a' before after outside parts value inner ih =>
      have outside' : (e.withChildren (before ++ a' :: after)).isReference = false := by
        rw [isReference_withChildren, outside]
      rw [shell_of_unread outside', shell_of_unread outside,
        mapParts_withChildren (length_parts parts), mapParts, parts]
      simp [ih]

theorem reference?_of_unread (h : e.isReference = false) : e.reference? = none := by
  cases e <;> first | rfl | cases h

/-- The references are the same one by one, but for the one that is written out. -/
theorem references (h : Inlined v c e e') :
    List.Forall₂ (Reference.Inlined v c) e.references e'.references := by
  induction h with
  | here => exact .cons .named .nil
  | @part e a a' before after outside parts value inner ih =>
      have outside' : (e.withChildren (before ++ a' :: after)).isReference = false := by
        rw [isReference_withChildren, outside]
      rw [references_of_none (reference?_of_unread outside),
        references_of_none (reference?_of_unread outside'),
        children_withChildren (length_parts parts), parts, List.flatMap_append, List.flatMap_append,
        List.flatMap_cons, List.flatMap_cons]
      have same (items : List Expr) : List.Forall₂ (Reference.Inlined v c)
          (items.flatMap Expr.references) (items.flatMap Expr.references) :=
        List.forall₂_same.mpr fun r _ => .same r
      exact List.rel_append (same before) (List.rel_append ih (same after))

/-- Answers that give both references the same value give the whole expressions the same. -/
theorem evalWith_eq {registry : Registry σ} {answers : Eval.Answers σ} {x : EvalM σ Value}
    (h : Inlined v c e e') (first : answers (interpolated (ident v)) = some x)
    (second : answers (column (.name c)) = some x)
    (unanswered : ∀ e, e.isReference = false → answers e = none) :
    Eval.evalWith registry answers e = Eval.evalWith registry answers e' := by
  induction h with
  | here => rw [Eval.evalWith_of_some first, Eval.evalWith_of_some second]
  | @part e a a' before after outside parts value inner ih =>
      have outside' : (e.withChildren (before ++ a' :: after)).isReference = false := by
        rw [isReference_withChildren, outside]
      refine Parallel.runs_twice_iff.mp (.withChildren (Parallel.twice_agrees registry)
        (unanswered e outside) (unanswered _ outside') outside (Parallel.twice_reads e)
        ?targets ?parts)
      case targets =>
        rintro target x rfl
        cases before with
        | nil => exact absurd rfl (value target x rfl)
        | cons b rest =>
            obtain ⟨rfl, -⟩ := List.cons.inj parts
            rfl
      case parts =>
        have same (items : List Expr) : List.Forall₂ (fun c c' => (Parallel.twice σ).Runs
            (Eval.evalWith registry answers c) (Eval.evalWith registry answers c')) items items :=
          List.forall₂_same.mpr fun c _ => Parallel.runs_twice_iff.mpr rfl
        rw [parts]
        exact List.rel_append (same before) (.cons (Parallel.runs_twice_iff.mpr ih) (same after))

end Inlined

end Expr

end TablePlan
