import TablePlan.Proofs.Argument.Conflict

/-!
# Where directives may stand

An argument can be taken apart if it has no directive at all, one around the whole of it, or one
around the value of its assignment. `Layers` lists these forms with what they are taken apart to, and
`Peeled.ofArgument` succeeds on exactly these.
-/

namespace TablePlan

namespace Expr

/-- There is no directive anywhere inside. -/
def Undirected (e : Expr) : Prop :=
  e.All fun n => n.isDirected = false

theorem undirected_iff {e : Expr} : e.Undirected ↔ e.directiveLetters = [] := by
  refine ⟨fun h => List.filterMap_eq_nil_iff.mpr fun n inside => ?_, undirected_of_letters⟩
  have plain := h n inside
  cases n <;> first | rfl | cases plain

theorem not_undirected_directed {letters : String} {inner : Expr} :
    ¬ (directed letters inner).Undirected :=
  fun h => Bool.noConfusion (h _ (self_mem_nodes _))

theorem undirected_assign {target value : Expr} :
    (assign target value).Undirected ↔ target.Undirected ∧ value.Undirected := by
  simp [Undirected, all_iff (e := assign target value), isDirected, children]

end Expr

open TablePlan.Expr

namespace Directives

/-- A text of one or more letters of directives. -/
structure IsLetters (text : String) : Prop where
  some : text ≠ ""
  known : ∀ c ∈ text.toList, c ∈ alphabet

theorem known_of_ofLetters {whole : String} {cs : List Char} {d : Directives}
    (h : ofLetters whole cs = .ok d) : ∀ c ∈ cs, c ∈ alphabet := by
  induction cs generalizing d with
  | nil => exact nofun
  | cons c rest ih =>
      rw [ofLetters] at h
      split at h
      · rename_i letter
        obtain ⟨others, later, -⟩ := ok_of_bind h
        refine List.forall_mem_cons.mpr ⟨?_, ih later⟩
        unfold ofLetter? at letter
        split at letter <;> first | decide | cases letter
      · cases h

theorem parse_ok_iff {text : String} {d : Directives} :
    parse text = .ok d ↔ IsLetters text ∧ d = ofText text := by
  constructor
  · intro h
    have known : ∀ c ∈ text.toList, c ∈ alphabet := by
      rw [parse] at h
      split at h
      · cases h
      · exact known_of_ofLetters h
    rw [parse_known known] at h
    split at h
    · cases h
    · cases h
      exact ⟨⟨‹_›, known⟩, rfl⟩
  · rintro ⟨letters, rfl⟩
    rw [parse_known letters.known, if_neg letters.some]

@[simp] theorem collect_ofText (text : String) : (ofText text).collect = true ↔ 't' ∈ text.toList := by
  simp [ofText]

end Directives

open Directives

theorem Expr.role_of_letters {letters : String} (known : IsLetters letters) (inner : Expr) :
    (directed letters inner).role = .ok (.directed (ofText letters) inner) := by
  rw [role_directed known.known, if_neg known.some]

namespace Peeled

variable {arg : Expr} {p : Peeled}

/-- The forms of an argument that can be taken apart, with what is left of each. A directive that
collects leaves an assignment it is around as the body, and does not go on the right of one. -/
inductive Layers : Expr → Peeled → Prop
  | bare {e : Expr} (whole : ∀ target value, e ≠ assign target value) (inside : e.Undirected) :
      Layers e ⟨.empty, none, e⟩
  | assignment {target value : Expr} (left : target.Undirected) (right : value.Undirected) :
      Layers (assign target value) ⟨.empty, some target, value⟩
  | around {letters : String} {e : Expr} (known : IsLetters letters)
      (whole : 't' ∈ letters.toList ∨ ∀ target value, e ≠ assign target value)
      (inside : e.Undirected) : Layers (directed letters e) ⟨ofText letters, none, e⟩
  | aroundAssignment {letters : String} {target value : Expr} (known : IsLetters letters)
      (single : 't' ∉ letters.toList) (left : target.Undirected) (right : value.Undirected) :
      Layers (directed letters (assign target value)) ⟨ofText letters, some target, value⟩
  | onRight {letters : String} {target e : Expr} (known : IsLetters letters)
      (single : 't' ∉ letters.toList) (left : target.Undirected) (right : e.Undirected) :
      Layers (assign target (directed letters e)) ⟨ofText letters, some target, e⟩

/-- Neither the body nor the target has a directive inside. -/
structure Undirected (p : Peeled) : Prop where
  body : p.body.Undirected
  target : ∀ t ∈ p.target, t.Undirected

theorem refuseInner_ok_iff : p.refuseInner = .ok () ↔ p.Undirected := by
  constructor
  · intro h
    obtain ⟨body, target⟩ := undirected_of_refuseInner h
    exact ⟨body, target⟩
  · intro h
    have none : (p.target.toList ++ [p.body]).flatMap directiveLetters = [] := by
      refine List.flatMap_eq_nil_iff.mpr fun e there => undirected_iff.mp ?_
      obtain target | body := List.mem_append.mp there
      · exact h.target e (by simpa using target)
      · exact List.mem_singleton.mp body ▸ h.body
    simp only [refuseInner, none]
    rfl

theorem ofArgument_ok_iff : ofArgument arg = .ok p ↔ outer arg = .ok p ∧ p.Undirected := by
  constructor
  · intro h
    obtain ⟨q, comes, h⟩ := ok_of_bind h
    obtain ⟨⟨⟩, refused, h⟩ := ok_of_bind h
    cases h
    exact ⟨comes, refuseInner_ok_iff.mp refused⟩
  · rintro ⟨comes, undirected⟩
    simp only [ofArgument, comes, bind, Except.bind, refuseInner_ok_iff.mpr undirected]
    rfl

/-- An argument that is taken apart with no directive left inside has one of the forms. -/
theorem layers_of_outer (h : outer arg = .ok p) (undirected : p.Undirected) : Layers arg p := by
  cases arg with
  | directed letters inner =>
      obtain ⟨role, played, h⟩ := ok_of_bind h
      obtain ⟨directives, parsed, played⟩ := ok_of_bind played
      cases played
      obtain ⟨known, rfl⟩ := parse_ok_iff.mp parsed
      obtain ⟨role, played, h⟩ := ok_of_bind h
      cases inner with
      | assign target value =>
          cases played
          dsimp only at h
          split at h
          · rename_i collects
            cases h
            exact .around known (.inl ((collect_ofText letters).mp collects)) undirected.body
          · rename_i single
            cases h
            exact .aroundAssignment known (mt (collect_ofText letters).mpr single)
              (undirected.target target rfl) undirected.body
      | directed letters' inner =>
          obtain ⟨directives, -, played⟩ := ok_of_bind played
          cases played
          cases h
          exact absurd undirected.body not_undirected_directed
      | _ =>
          cases played
          cases h
          exact .around known (.inr nofun) undirected.body
  | assign target value =>
      obtain ⟨role, played, h⟩ := ok_of_bind h
      cases played
      obtain ⟨role, played, h⟩ := ok_of_bind h
      cases value with
      | directed letters inner =>
          obtain ⟨directives, parsed, played⟩ := ok_of_bind played
          cases played
          obtain ⟨known, rfl⟩ := parse_ok_iff.mp parsed
          dsimp only at h
          split at h
          · obtain ⟨⟨⟩, failed, -⟩ := ok_of_bind h
            cases failed
          · rename_i single
            cases h
            exact .onRight known (mt (collect_ofText letters).mpr single)
              (undirected.target target rfl) undirected.body
      | _ =>
          cases played
          cases h
          exact .assignment (undirected.target target rfl) undirected.body
  | _ =>
      cases h
      exact .bare nofun undirected.body

namespace Layers

theorem undirected (h : Layers arg p) : p.Undirected := by
  cases h with
  | bare _ inside | around _ _ inside => exact ⟨inside, nofun⟩
  | assignment left right | aroundAssignment _ _ left right | onRight _ _ left right =>
      refine ⟨right, fun t is => ?_⟩
      cases is
      exact left

/-- Each of the forms is taken apart as listed. -/
theorem outer (h : Layers arg p) : Peeled.outer arg = .ok p := by
  cases h with
  | bare whole inside =>
      cases arg with
      | assign target value => exact absurd rfl (whole target value)
      | directed letters inner => exact absurd inside not_undirected_directed
      | _ => rfl
  | @assignment target value left right =>
      cases value with
      | directed letters inner => exact absurd right not_undirected_directed
      | _ => rfl
  | @around letters e known whole inside =>
      simp only [Peeled.outer, role_of_letters known, bind, Except.bind]
      cases e with
      | assign target value =>
          have collects := (collect_ofText letters).mpr (whole.resolve_right fun h => h _ _ rfl)
          exact if_pos collects
      | directed letters inner => exact absurd inside not_undirected_directed
      | _ => rfl
  | @aroundAssignment letters target value known single left right =>
      simp only [Peeled.outer, role_of_letters known, bind, Except.bind]
      exact if_neg (mt (collect_ofText letters).mp single)
  | @onRight letters target e known single left right =>
      have played : (assign target (directed letters e)).role
          = .ok (.assignment target (directed letters e)) := rfl
      simp only [Peeled.outer, played, role_of_letters known, bind, Except.bind]
      exact if_neg (mt (collect_ofText letters).mp single)

end Layers

theorem ofArgument_iff_layers : ofArgument arg = .ok p ↔ Layers arg p :=
  ofArgument_ok_iff.trans
    ⟨fun ⟨comes, undirected⟩ => layers_of_outer comes undirected, fun h => ⟨h.outer, h.undirected⟩⟩

/-- The form of an argument that has layers, without what is left of it. -/
theorem exists_layers_iff : (∃ p, Layers arg p) ↔
    arg.Undirected
    ∨ (∃ letters e, arg = directed letters e ∧ IsLetters letters ∧ e.Undirected)
    ∨ ∃ target letters e, arg = assign target (directed letters e) ∧ IsLetters letters
      ∧ 't' ∉ letters.toList ∧ target.Undirected ∧ e.Undirected := by
  constructor
  · rintro ⟨p, h⟩
    cases h with
    | bare _ inside => exact .inl inside
    | assignment left right => exact .inl (undirected_assign.mpr ⟨left, right⟩)
    | around known _ inside => exact .inr (.inl ⟨_, _, rfl, known, inside⟩)
    | aroundAssignment known _ left right =>
        exact .inr (.inl ⟨_, _, rfl, known, undirected_assign.mpr ⟨left, right⟩⟩)
    | onRight known single left right => exact .inr (.inr ⟨_, _, _, rfl, known, single, left, right⟩)
  · rintro (inside | ⟨letters, e, rfl, known, inside⟩
      | ⟨target, letters, e, rfl, known, single, left, right⟩)
    · by_cases assigns : ∃ target value, arg = assign target value
      · obtain ⟨target, value, rfl⟩ := assigns
        obtain ⟨left, right⟩ := undirected_assign.mp inside
        exact ⟨_, .assignment left right⟩
      · exact ⟨_, .bare (fun target value is => assigns ⟨target, value, is⟩) inside⟩
    · by_cases assigns : 't' ∉ letters.toList ∧ ∃ target value, e = assign target value
      · obtain ⟨single, target, value, rfl⟩ := assigns
        obtain ⟨left, right⟩ := undirected_assign.mp inside
        exact ⟨_, .aroundAssignment known single left right⟩
      · refine ⟨_, .around known ?_ inside⟩
        by_cases collects : 't' ∈ letters.toList
        · exact .inl collects
        · exact .inr fun target value is => assigns ⟨collects, target, value, is⟩
    · exact ⟨_, .onRight known single left right⟩

/-- An argument is taken apart if it has no directive, a directive around it, or one that does not
collect around the value of its assignment, and no other directive inside any of these. What it is
taken apart to is told by its form, and has no directive left inside. -/
theorem directives_in_place (arg : Expr) :
    ((∃ p, ofArgument arg = .ok p) ↔
      arg.Undirected
      ∨ (∃ letters e, arg = directed letters e ∧ IsLetters letters ∧ e.Undirected)
      ∨ ∃ target letters e, arg = assign target (directed letters e) ∧ IsLetters letters
        ∧ 't' ∉ letters.toList ∧ target.Undirected ∧ e.Undirected)
    ∧ ∀ p, (ofArgument arg = .ok p ↔ Layers arg p) ∧ (ofArgument arg = .ok p → p.Undirected) := by
  refine ⟨?_, fun p => ⟨ofArgument_iff_layers, fun h => (ofArgument_ok_iff.mp h).2⟩⟩
  rw [← exists_layers_iff]
  exact exists_congr fun p => ofArgument_iff_layers

end Peeled

end TablePlan
