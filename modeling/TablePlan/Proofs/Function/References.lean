import Mathlib.Data.List.Nodup
import TablePlan.Function.Reference
import TablePlan.Proofs.Effects
import TablePlan.Proofs.Expr.Traversal

/-!
# Replacing references

Replacing references goes from left to right and only ever adds bindings, so a relation that more
bindings do not disturb holds of the whole expression if it holds of every reference with its
parameter and is handed on by everything that is rebuilt around them.
-/

namespace TablePlan

namespace Binding

theorem paramName_injective {i j : Nat} (h : paramName i = paramName j) : i = j := by
  have digits : Nat.toDigits 10 i = Nat.toDigits 10 j := by
    simpa [paramName] using congrArg String.toList h
  rw [← Nat.ofDigitChars_ten_toDigits (n := i), digits, Nat.ofDigitChars_ten_toDigits]

/-- Bindings are numbered in the order they are made. -/
def Numbered (bindings : List Binding) : Prop :=
  bindings.map param = (List.range bindings.length).map fun i => paramName (i + 1)

theorem numbered_nil : Numbered [] := rfl

theorem Numbered.append {bindings : List Binding} (h : Numbered bindings) (r : Reference) :
    Numbered (bindings ++ [⟨paramName (bindings.length + 1), r⟩]) := by
  unfold Numbered at *
  simp [h, List.range_succ]

theorem Numbered.nodup {bindings : List Binding} (h : Numbered bindings) :
    (bindings.map param).Nodup := by
  rw [h]
  refine List.Nodup.map (fun i j same => ?_) List.nodup_range
  have := paramName_injective same
  omega

theorem Numbered.exists_of_mem {bindings : List Binding} (h : Numbered bindings) {p : String}
    (inside : p ∈ bindings.map param) : ∃ number, p = paramName number := by
  rw [h] at inside
  obtain ⟨i, -, rfl⟩ := List.mem_map.mp inside
  exact ⟨i + 1, rfl⟩

/-- A reference that is bound already keeps its parameter. -/
theorem run_bind_of_some {r : Reference} {bindings : List Binding} {b : Binding}
    (h : bindings.find? (fun b => b.reference == r) = some b) :
    (bind r).run bindings = (b.param, bindings) := by
  simp only [bind, StateT.run_bind, StateT.run_get, pure_bind, h]
  rfl

/-- Any other reference is given the next parameter. -/
theorem run_bind_of_none {r : Reference} {bindings : List Binding}
    (h : bindings.find? (fun b => b.reference == r) = none) :
    (bind r).run bindings = (paramName (bindings.length + 1),
      bindings ++ [⟨paramName (bindings.length + 1), r⟩]) := by
  simp only [bind, StateT.run_bind, StateT.run_get, pure_bind, h]
  rfl

/-- The bindings once a reference is bound. -/
def enter (bindings : List Binding) (r : Reference) : List Binding :=
  ((bind r).run bindings).2

theorem enter_eq (bindings : List Binding) (r : Reference) :
    enter bindings r = if bindings.any (·.reference == r) then bindings
      else bindings ++ [⟨paramName (bindings.length + 1), r⟩] := by
  unfold enter
  cases found : bindings.find? fun b => b.reference == r with
  | some b =>
      have like : bindings.any (·.reference == r) :=
        List.any_eq_true.mpr ⟨b, List.mem_of_find?_eq_some found, by simpa using List.find?_some found⟩
      rw [run_bind_of_some found, if_pos like]
  | none =>
      have unlike : ¬ bindings.any (·.reference == r) := by
        rw [List.any_eq_true]
        rintro ⟨b, inside, like⟩
        exact List.find?_eq_none.mp found b inside like
      rw [run_bind_of_none found, if_neg unlike]

/-- Bindings that are numbered, of references with the property `W`. -/
def Sound (W : Reference → Prop) (bindings : List Binding) : Prop :=
  Numbered bindings ∧ ∀ b ∈ bindings, W b.reference

theorem sound_nil (W : Reference → Prop) : Sound W [] :=
  ⟨numbered_nil, by simp⟩

/-- The computation only adds bindings, which stay sound, and `R` holds of its result with the
bindings by then. -/
def Adds {α : Type} (W : Reference → Prop) (bindings : List Binding)
    (x : StateM (List Binding) α) (R : List Binding → α → Prop) : Prop :=
  Sound W (x.run bindings).2 ∧ bindings <+: (x.run bindings).2
    ∧ R (x.run bindings).2 (x.run bindings).1

namespace Adds

variable {α β : Type} {W : Reference → Prop} {bindings : List Binding} {R : List Binding → α → Prop}

theorem pure {a : α} (sound : Sound W bindings) (h : R bindings a) :
    Adds W bindings (pure a) R :=
  ⟨sound, List.prefix_rfl, h⟩

theorem bind {S : List Binding → β → Prop} {x : StateM (List Binding) α}
    {f : α → StateM (List Binding) β} (first : Adds W bindings x R)
    (second : ∀ a more, Sound W more → bindings <+: more → R more a → Adds W more (f a) S) :
    Adds W bindings (x >>= f) S := by
  obtain ⟨sound, more, h⟩ := first
  obtain ⟨sound', more', h'⟩ := second _ _ sound more h
  exact ⟨sound', more.trans more', h'⟩

theorem map {S : List Binding → β → Prop} {x : StateM (List Binding) α} {f : α → β}
    (first : Adds W bindings x R) (h : ∀ a more, R more a → S more (f a)) :
    Adds W bindings (f <$> x) S :=
  ⟨first.1, first.2.1, h _ _ first.2.2⟩

/-- A traversal adds to the bindings from each element to the next. -/
theorem mapM {R : List Binding → α → β → Prop} {f : α → StateM (List Binding) β} {as : List α}
    (sound : Sound W bindings)
    (grow : ∀ a b bindings more, bindings <+: more → R bindings a b → R more a b)
    (each : ∀ a ∈ as, ∀ bindings, Sound W bindings →
      Adds W bindings (f a) fun more b => R more a b) :
    Adds W bindings (as.mapM f) fun more bs => List.Forall₂ (R more) as bs := by
  induction as generalizing bindings with
  | nil => exact pure sound .nil
  | cons a rest ih =>
      rw [List.mapM_cons]
      refine (each a (by simp) bindings sound).bind fun b more sound _ first => ?_
      have later := ih sound fun c inside => each c (by simp [inside])
      refine later.bind fun bs more' sound' grown others => ?_
      exact pure sound' (.cons (grow a b _ _ grown first) others)

theorem mono {S : List Binding → α → Prop} {x : StateM (List Binding) α}
    (h : Adds W bindings x R) (weaker : ∀ more a, Sound W more → R more a → S more a) :
    Adds W bindings x S :=
  ⟨h.1, h.2.1, weaker _ _ h.1 h.2.2⟩

end Adds

/-- A reference is bound to a parameter of its own or of one written alike. -/
theorem bind_adds {W : Reference → Prop} {r : Reference} (fits : W r) {bindings : List Binding}
    (sound : Sound W bindings) :
    Adds W bindings (bind r) fun more param =>
      ∃ b ∈ more, b.param = param ∧ (b.reference = r ∨ b.reference == r) := by
  cases found : bindings.find? fun b => b.reference == r with
  | some b =>
      unfold Adds
      rw [run_bind_of_some found]
      exact ⟨sound, List.prefix_rfl, b, List.mem_of_find?_eq_some found, rfl,
        Or.inr (by simpa using List.find?_some found)⟩
  | none =>
      unfold Adds
      rw [run_bind_of_none found]
      refine ⟨⟨sound.1.append r, ?_⟩, List.prefix_append .., ⟨_, r⟩, by simp, rfl, Or.inl rfl⟩
      intro b inside
      obtain old | rfl := by simpa using inside
      · exact sound.2 b old
      · exact fits

theorem Sound.enter {W : Reference → Prop} {r : Reference} (fits : W r) {bindings : List Binding}
    (sound : Sound W bindings) : Sound W (enter bindings r) :=
  (bind_adds fits sound).1

end Binding

namespace Expr

open Binding

/-- What replacing the references of an expression comes to, for a relation that more bindings do
not disturb. All nodes of the expression have the property `Q`. -/
theorem replaceReferences_adds {W : Reference → Prop} {Q : Expr → Prop}
    {R : List Binding → Expr → Expr → Prop}
    (grow : ∀ e e' bindings more, bindings <+: more → R bindings e e' → R more e e')
    (answer : ∀ e r bindings, e.All Q → e.reference? = some r → Sound W bindings →
      Adds W bindings (Binding.bind r) fun more param => R more e (ident param))
    (rebuild : ∀ e cs bindings, e.All Q → e.reference? = none →
      List.Forall₂ (R bindings) e.children cs → R bindings e (e.withChildren cs))
    {e : Expr} (all : e.All Q) {bindings : List Binding} (sound : Sound W bindings) :
    Adds W bindings e.replaceReferences fun more e' => R more e e' := by
  induction e using childInduction generalizing bindings with
  | step e ih =>
      rw [replaceReferences, substitute_eq]
      cases reference : e.reference? with
      | some r => exact (answer e r bindings all reference sound).map fun _ _ h => h
      | none =>
          rw [Option.map_none, Option.getD_none, mapChildren_eq]
          refine (Adds.mapM sound grow fun c child bindings sound => ?_).map fun cs more h =>
            rebuild e cs more all reference h
          exact ih c child (all.child child) sound

theorem isReference_eq_false {e : Expr} (h : e.reference? = none) : e.isReference = false := by
  cases e <;> first | rfl | cases h

theorem isReference_of_reference? {e : Expr} {r : Reference} (h : e.reference? = some r) :
    e.isReference = true := by
  cases e <;> first | rfl | cases h

/-- A part that has no references is left alone, which a relation between an expression and its
replacement can rely on wherever an expression is rebuilt. -/
theorem replaceReferences_adds_unread {W : Reference → Prop} {Q : Expr → Prop}
    {R : List Binding → Expr → Expr → Prop}
    (grow : ∀ e e' bindings more, bindings <+: more → R bindings e e' → R more e e')
    (answer : ∀ e r bindings, e.All Q → e.reference? = some r → Sound W bindings →
      Adds W bindings (Binding.bind r) fun more param => R more e (ident param))
    (rebuild : ∀ e cs bindings, e.All Q → e.reference? = none →
      List.Forall₂ (fun c c' => R bindings c c' ∧ ((c.All fun n => n.isReference = false) → c' = c))
        e.children cs → R bindings e (e.withChildren cs))
    {e : Expr} (all : e.All Q) {bindings : List Binding} (sound : Sound W bindings) :
    Adds W bindings e.replaceReferences fun more e' => R more e e' := by
  refine (replaceReferences_adds (Q := Q) (R := fun bindings e e' => R bindings e e'
    ∧ ((e.All fun n => n.isReference = false) → e' = e)) ?grown ?bound ?rebuilt all sound).mono
    fun _ _ _ h => h.1
  case grown => exact fun e e' bindings more longer h => ⟨grow e e' bindings more longer h.1, h.2⟩
  case bound =>
    intro e r bindings all reference sound
    refine (answer e r bindings all reference sound).mono fun _ _ _ h => ⟨h, fun unread => ?_⟩
    have own : e.isReference = false := unread e (self_mem_nodes e)
    rw [isReference_of_reference? reference] at own
    cases own
  case rebuilt =>
    intro e cs bindings all other parts
    refine ⟨rebuild e cs bindings all other parts, fun unread => ?_⟩
    have each := (List.forall₂_and_left _ _).mpr ⟨fun c child => unread.child child, parts⟩
    have kept : e.children = cs := by
      rw [← List.forall₂_eq_eq_eq]
      exact each.imp fun c c' related => (related.2.2 related.1).symm
    rw [← kept, withChildren_children]

/-- The parameters of a body are numbered in the order of their first occurrence. -/
theorem replaceReferences_numbered (e : Expr) : Numbered (e.replaceReferences.run []).2 := by
  have adds := replaceReferences_adds (W := fun _ => True) (Q := fun _ => True)
    (R := fun _ _ _ => True) (fun _ _ _ _ _ h => h)
    (fun _ _ _ _ _ sound => (bind_adds trivial sound).mono fun _ _ _ _ => trivial)
    (fun _ _ _ _ _ _ => trivial) (fun n _ => trivial : e.All fun _ => True) (sound_nil _)
  exact adds.1.1

/-- An expression that the evaluator of function bodies knows how to go on with. -/
def Evaluable (e : Expr) : Prop :=
  e.isReference = false ∧ e.isDirected = false

/-- What holds of identifiers, and of every node that is no reference with whatever parts, holds of all
nodes once the references are replaced. -/
theorem all_replaceReferences {P Q : Expr → Prop} (param : ∀ name, P (ident name))
    (rebuilt : ∀ e cs, Q e → e.reference? = none → P (e.withChildren cs)) {e : Expr} (h : e.All Q) :
    (e.replaceReferences.run []).1.All P := by
  refine (replaceReferences_adds (W := fun _ => True) (R := fun _ _ e' => e'.All P)
    (fun _ _ _ _ _ h => h) ?answer ?rebuild h (sound_nil _)).2.2
  case answer =>
    intro e r bindings _ _ sound
    refine (bind_adds trivial sound).mono fun more name _ _ => ?_
    exact all_iff.mpr ⟨param name, nofun⟩
  case rebuild =>
    intro e cs bindings all unanswered parts
    rw [all_iff, children_withChildren parts.length_eq.symm]
    refine ⟨rebuilt e cs (all_iff.mp all).1 unanswered, fun c' child => ?_⟩
    obtain ⟨c, -, related⟩ := exists_of_mem_right parts child
    exact related

/-- Where there is no directive, replacing the references leaves neither. -/
theorem all_evaluable_replaceReferences {e : Expr} (h : e.All fun n => n.isDirected = false) :
    (e.replaceReferences.run []).1.All Evaluable := by
  refine all_replaceReferences (fun _ => ⟨rfl, rfl⟩) (fun e cs undirected unanswered => ⟨?_, ?_⟩) h
  · rw [isReference_withChildren, isReference_eq_false unanswered]
  · rw [isDirected_withChildren, undirected]

end Expr

end TablePlan
