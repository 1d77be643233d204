import TablePlan.Proofs.Argument.Body
import TablePlan.Proofs.Expr.Inlining

/-!
# Taking arguments apart with a name written out

Writing out an interpolated name in the body of an argument leaves its directives and its target
alone: the argument is taken apart the same way, and its assignments are collected the same way.
-/

namespace TablePlan

variable {α β γ δ ε : Type}

/-- Both computations fail, or both come to values that are related. -/
def Matches (R : α → β → Prop) : Except ε α → Except ε β → Prop
  | .ok a, .ok b => R a b
  | .error _, .error _ => True
  | _, _ => False

namespace Matches

variable {R : α → β → Prop} {x : Except ε α} {y : Except ε β}

theorem refl (x : Except ε α) : Matches Eq x x := by
  cases x <;> trivial

theorem bind_of_eq {S : γ → δ → Prop} {f : α → Except ε γ} {g : β → Except ε δ}
    (first : Matches R x y)
    (second : ∀ a b, x = .ok a → y = .ok b → R a b → Matches S (f a) (g b)) :
    Matches S (x >>= f) (y >>= g) := by
  cases x with
  | error e =>
      cases y with
      | error e' => trivial
      | ok b => exact first.elim
  | ok a =>
      cases y with
      | error e' => exact first.elim
      | ok b => exact second a b rfl rfl first

theorem bind {S : γ → δ → Prop} {f : α → Except ε γ} {g : β → Except ε δ} (first : Matches R x y)
    (second : ∀ a b, R a b → Matches S (f a) (g b)) : Matches S (x >>= f) (y >>= g) :=
  first.bind_of_eq fun a b _ _ related => second a b related

theorem exists_ok {b : β} (h : Matches R x (.ok b)) : ∃ a, x = .ok a ∧ R a b := by
  cases x with
  | error e => exact h.elim
  | ok a => exact ⟨a, rfl, h⟩

theorem exists_error {e : ε} (h : Matches R x (.error e)) : ∃ e', x = .error e' := by
  cases x with
  | error e' => exact ⟨e', rfl⟩
  | ok a => exact h.elim

theorem map_right {S : α → γ → Prop} {f : β → γ} (h : Matches R x y)
    (related : ∀ a b, R a b → S a (f b)) : Matches S x (y >>= fun b => pure (f b)) := by
  cases x <;> cases y <;> first | trivial | exact related _ _ h

/-- The same computation may be followed by different ones. -/
theorem bind_same {S : γ → δ → Prop} {x : Except ε α} {f : α → Except ε γ} {g : α → Except ε δ}
    (second : ∀ a, x = .ok a → Matches S (f a) (g a)) : Matches S (x >>= f) (x >>= g) := by
  cases x with
  | error e => trivial
  | ok a => exact second a rfl

end Matches

namespace Expr.Inlined

variable {v c : String} {e e' : Expr}

/-! ### Parts -/

theorem of_directed {letters : String} {inner : Expr}
    (h : Inlined v c (directed letters inner) e') :
    ∃ inner', e' = directed letters inner' ∧ Inlined v c inner inner' := by
  cases h with
  | @part _ a a' before after outside parts value inlined =>
      obtain ⟨rfl, same⟩ | ⟨rfl, same⟩ := List.append_eq_singleton_iff.mp parts.symm
      · cases same
        exact ⟨a', rfl, inlined⟩
      · cases same

theorem of_assign {target x : Expr} (h : Inlined v c (assign target x) e') :
    ∃ x', e' = assign target x' ∧ Inlined v c x x' := by
  cases h with
  | @part _ a a' before after outside parts value inlined =>
      cases before with
      | nil => exact absurd rfl (value target x rfl)
      | cons b rest =>
          obtain ⟨rfl, later⟩ := List.cons.inj parts
          obtain ⟨rfl, same⟩ | ⟨rfl, same⟩ := List.append_eq_singleton_iff.mp later.symm
          · cases same
            exact ⟨a', rfl, inlined⟩
          · cases same

theorem of_block {statements : List Expr} (h : Inlined v c (block statements) e') :
    ∃ before a a' after, statements = before ++ a :: after
      ∧ e' = block (before ++ a' :: after) ∧ Inlined v c a a' := by
  cases h with
  | @part _ a a' before after outside parts value inlined =>
      exact ⟨before, a, a', after, parts, rfl, inlined⟩

/-- Neither a directive, nor an assignment, nor a block. -/
def Loose : Expr → Prop
  | directed _ _ | assign _ _ | block _ => False
  | _ => True

theorem loose_withChildren {cs : List Expr} (h : Loose e) : Loose (e.withChildren cs) := by
  unfold withChildren
  split <;> trivial

/-- The ways in which a part of an argument is written out. -/
theorem shapes (h : Inlined v c e e') :
    (∃ letters inner inner', e = directed letters inner ∧ e' = directed letters inner'
      ∧ Inlined v c inner inner')
    ∨ (∃ target x x', e = assign target x ∧ e' = assign target x' ∧ Inlined v c x x')
    ∨ (∃ before a a' after, e = block (before ++ a :: after)
      ∧ e' = block (before ++ a' :: after) ∧ Inlined v c a a')
    ∨ (Loose e ∧ Loose e') := by
  cases e with
  | directed letters inner =>
      obtain ⟨inner', rfl, inlined⟩ := h.of_directed
      exact .inl ⟨_, _, _, rfl, rfl, inlined⟩
  | assign target x =>
      obtain ⟨x', rfl, inlined⟩ := h.of_assign
      exact .inr (.inl ⟨_, _, _, rfl, rfl, inlined⟩)
  | block statements =>
      obtain ⟨before, a, a', after, rfl, rfl, inlined⟩ := h.of_block
      exact .inr (.inr (.inl ⟨_, _, _, _, rfl, rfl, inlined⟩))
  | interpolated inner =>
      cases h with
      | here => exact .inr (.inr (.inr ⟨trivial, trivial⟩))
      | part outside => cases outside
  | _ =>
      cases h with
      | part => exact .inr (.inr (.inr ⟨trivial, loose_withChildren trivial⟩))

/-- No directive appears or goes away. -/
theorem directiveLetters_eq (h : Inlined v c e e') : e'.directiveLetters = e.directiveLetters := by
  induction h with
  | here => rfl
  | @part e a a' before after outside parts value inner ih =>
      cases around : e.isDirected with
      | true =>
          cases e <;> cases around
          obtain ⟨rfl, same⟩ | ⟨rfl, same⟩ := List.append_eq_singleton_iff.mp parts.symm
          · cases same
            change (directed _ a').directiveLetters = _
            rw [directiveLetters_directed, directiveLetters_directed, ih]
          · cases same
      | false =>
          rw [directiveLetters_of_undirected around, directiveLetters_of_undirected
            (by rw [isDirected_withChildren, around]), children_withChildren (length_parts parts),
            parts]
          simp [ih]

end Expr.Inlined

/-! ### Roles -/

namespace Role

/-- Not the role of a directive, an assignment or a block. -/
def Loose : Role → Prop
  | plain | column _ | interpolated _ => True
  | _ => False

/-- The roles of a part of an argument before and after a name in it is written out. -/
inductive Inlined (v c : String) : Role → Role → Prop
  | directed (d : Directives) {inner inner' : Expr} (inlined : Expr.Inlined v c inner inner') :
    Inlined v c (directed d inner) (directed d inner')
  | assignment (target : Expr) {x x' : Expr} (inlined : Expr.Inlined v c x x') :
    Inlined v c (assignment target x) (assignment target x')
  | block (statements statements' : List Expr) :
    Inlined v c (block statements) (block statements')
  | loose {r r' : Role} (first : r.Loose) (second : r'.Loose) : Inlined v c r r'

end Role

variable {v c : String}

theorem Expr.Inlined.role_matches {e e' : Expr} (h : Inlined v c e e') :
    Matches (Role.Inlined v c) e.role e'.role := by
  have role_of_loose {e : Expr} (loose : Loose e) : ∃ r : Role, e.role = .ok r ∧ r.Loose := by
    cases e <;> first | exact loose.elim | exact ⟨_, rfl, trivial⟩
  obtain ⟨letters, inner, inner', rfl, rfl, inlined⟩ | ⟨target, x, x', rfl, rfl, inlined⟩
    | ⟨before, a, a', after, rfl, rfl, inlined⟩ | ⟨loose, loose'⟩ := h.shapes
  · exact Matches.bind_same fun d _ => .directed d inlined
  · exact .assignment target inlined
  · exact .block _ _
  · obtain ⟨r, played, kind⟩ := role_of_loose loose
    obtain ⟨r', played', kind'⟩ := role_of_loose loose'
    rw [played, played']
    exact .loose kind kind'

namespace Peeled

/-- Both arguments have the same directives and the same target. -/
structure Inlined (v c : String) (p p' : Peeled) : Prop where
  directives : p.directives = p'.directives
  target : p.target = p'.target
  body : Expr.Inlined v c p.body p'.body

variable {arg arg' : Expr}

theorem outer_matches (h : Expr.Inlined v c arg arg') :
    Matches (Inlined v c) (outer arg) (outer arg') := by
  refine h.role_matches.bind fun r r' related => ?_
  cases related with
  | directed d inlined =>
      refine inlined.role_matches.bind fun r r' related => ?_
      cases related with
      | assignment target value =>
          dsimp only
          split
          · exact ⟨rfl, rfl, inlined⟩
          · exact ⟨rfl, rfl, value⟩
      | loose first second =>
          cases r <;> cases first <;> cases r' <;> cases second <;> exact ⟨rfl, rfl, inlined⟩
      | _ => exact ⟨rfl, rfl, inlined⟩
  | assignment target inlined =>
      refine inlined.role_matches.bind fun r r' related => ?_
      cases related with
      | directed d inner =>
          dsimp only
          split
          · trivial
          · exact ⟨rfl, rfl, inner⟩
      | loose first second =>
          cases r <;> cases first <;> cases r' <;> cases second <;> exact ⟨rfl, rfl, inlined⟩
      | _ => exact ⟨rfl, rfl, inlined⟩
  | block => exact ⟨rfl, rfl, h⟩
  | loose first second =>
      cases r <;> cases first <;> cases r' <;> cases second <;> exact ⟨rfl, rfl, h⟩

/-- An argument in which a name is written out is taken apart the same way. -/
theorem ofArgument_matches (h : Expr.Inlined v c arg arg') :
    Matches (Inlined v c) (ofArgument arg) (ofArgument arg') := by
  refine (outer_matches h).bind fun p p' related => ?_
  have same : p.refuseInner = p'.refuseInner := by
    simp only [refuseInner, List.flatMap_append, List.flatMap_cons, related.directives,
      related.target, related.body.directiveLetters_eq]
  rw [same]
  exact Matches.bind_same fun _ _ => related

end Peeled

/-! ### Collecting -/

namespace Collected

/-- One statement is written out, and the fields are the same. -/
def StatementsInlined (v c : String) (x y : List Expr × List String) : Prop :=
  (∃ before a a' after, x.1 = before ++ a :: after ∧ y.1 = before ++ a' :: after
    ∧ Expr.Inlined v c a a') ∧ x.2 = y.2

theorem statementsOf_matches {body body' : Expr} (h : Expr.Inlined v c body body') :
    Matches (fun items items' => ∃ before a a' after, items = before ++ a :: after
      ∧ items' = before ++ a' :: after ∧ Expr.Inlined v c a a')
      (statementsOf body) (statementsOf body') := by
  obtain ⟨letters, inner, inner', rfl, rfl, inlined⟩ | ⟨target, x, x', rfl, rfl, inlined⟩
    | ⟨before, a, a', after, rfl, rfl, inlined⟩ | ⟨loose, loose'⟩ := h.shapes
  · trivial
  · exact ⟨[], _, _, [], rfl, rfl, h⟩
  · exact ⟨before, a, a', after, rfl, rfl, inlined⟩
  · cases body <;> first | exact loose.elim | (cases body' <;> first | exact loose'.elim | trivial)

theorem statement_matches {e e' : Expr} (h : Expr.Inlined v c e e') (fields : List String) :
    Matches (fun x y => Expr.Inlined v c x.1 y.1 ∧ x.2 = y.2)
      ((statement e).run fields) ((statement e').run fields) := by
  obtain ⟨letters, inner, inner', rfl, rfl, inlined⟩ | ⟨target, x, x', rfl, rfl, inlined⟩
    | ⟨before, a, a', after, rfl, rfl, inlined⟩ | ⟨loose, loose'⟩ := h.shapes
  · exact ⟨h, rfl⟩
  · simp only [statement, StateT.run_bind]
    refine Matches.bind_same fun t _ => ⟨?_, rfl⟩
    have written : Expr.Inlined v c (.assign t.1 x)
        ((Expr.assign t.1 x).withChildren ([t.1] ++ x' :: [])) := .part rfl rfl (by simp) inlined
    exact written
  · exact ⟨h, rfl⟩
  · have kept {e : Expr} (loose : Expr.Inlined.Loose e) : statement e = return e := by
      cases e <;> first | exact loose.elim | rfl
    rw [kept loose, kept loose']
    exact ⟨h, rfl⟩

theorem ofBody_matches {body body' : Expr} (h : Expr.Inlined v c body body') :
    Matches (fun x y => Expr.Inlined v c x.body y.body ∧ x.fields = y.fields)
      (ofBody body) (ofBody body') := by
  refine (statementsOf_matches h).bind fun items items' split => ?_
  obtain ⟨before, a, a', after, rfl, rfl, inlined⟩ := split
  have mapped : Matches (StatementsInlined v c) (((before ++ a :: after).mapM statement).run [])
      (((before ++ a' :: after).mapM statement).run []) := by
    simp only [List.mapM_append, List.mapM_cons, StateT.run_bind]
    refine Matches.bind_same fun xs _ => ?_
    simp only [bind_assoc]
    refine (statement_matches inlined xs.2).bind fun y y' related => ?_
    obtain ⟨written, same⟩ := related
    rw [same]
    exact Matches.bind_same fun zs _ => ⟨⟨xs.1, y.1, y'.1, zs.1, rfl, rfl, written⟩, rfl⟩
  refine mapped.bind fun x y related => ?_
  obtain ⟨xs, fields⟩ := x
  obtain ⟨ys, fields'⟩ := y
  obtain ⟨⟨before, a, a', after, first, second, inlined⟩, same⟩ := related
  dsimp only at first second same ⊢
  subst first second same
  split
  · trivial
  · let record : Expr := .record (fields.map fun name => (name, .ident (fieldLocal name)))
    have written : Expr.Inlined v c (.block (before ++ a :: (after ++ [record])))
        (.block (before ++ a' :: (after ++ [record]))) := .part rfl rfl nofun inlined
    refine ⟨?_, rfl⟩
    simpa using written

end Collected

/-- The body that is planned has the name written out, and the target is the same. -/
theorem ArgumentPlan.bodyAndTarget_matches {p p' : Peeled} (h : p.Inlined v c p') :
    Matches (fun x y => Expr.Inlined v c x.1 y.1 ∧ x.2 = y.2)
      (bodyAndTarget p) (bodyAndTarget p') := by
  unfold bodyAndTarget
  rw [h.directives]
  split
  · refine (Collected.ofBody_matches h.body).bind fun x y related => ?_
    exact ⟨related.1, congrArg Target.expandRecord related.2⟩
  · rw [h.target]
    split
    · exact ⟨h.body, rfl⟩
    · exact ⟨h.body, rfl⟩

end TablePlan
