import TablePlan.Plan.Basic
import TablePlan.Proofs.Effects
import TablePlan.Proofs.Expr.Traversal

/-!
# Bodies of arguments

The body of an argument has no directive inside: taking the argument apart refuses one, and
collecting assignments puts new nodes around old ones, none of which is a directive.
-/

namespace TablePlan

namespace Expr

theorem directiveLetters_directed (letters : String) (inner : Expr) :
    (directed letters inner).directiveLetters = letters :: inner.directiveLetters := by
  simp [directiveLetters, nodes]

theorem directiveLetters_of_undirected {e : Expr} (h : e.isDirected = false) :
    e.directiveLetters = e.children.flatMap directiveLetters := by
  rw [directiveLetters, nodes_eq, List.filterMap_cons, List.filterMap_flatMap]
  cases e <;> first | rfl | cases h

theorem undirected_of_letters {e : Expr} (h : e.directiveLetters = []) :
    e.All fun n => n.isDirected = false := by
  intro n inside
  unfold directiveLetters at h
  have kept := List.filterMap_eq_nil_iff.mp h n inside
  cases n <;> first | rfl | cases kept

/-- An expression that plays a part has that part. -/
theorem eq_of_role {e : Expr} {role : Role} (h : e.role = .ok role) :
    match role with
    | .plain => True
    | .column c => e = column c
    | .interpolated inner => e = interpolated inner
    | .directed _ inner => ∃ letters, e = directed letters inner
    | .block statements => e = block statements
    | .assignment target value => e = assign target value := by
  unfold Expr.role at h
  split at h
  case h_3 letters inner =>
    obtain ⟨directives, -, h⟩ := ok_of_bind h
    cases h
    exact ⟨letters, rfl⟩
  all_goals
    cases h
    first | rfl | trivial

end Expr

open TablePlan.Expr

namespace Peeled

/-- The body of an argument is a part of it. -/
theorem body_mem_of_outer {arg : Expr} {p : Peeled} (h : outer arg = .ok p) :
    p.body ∈ arg.nodes := by
  obtain ⟨role, played, h⟩ := ok_of_bind h
  cases role with
  | directed directives inner =>
      obtain ⟨letters, whole⟩ := eq_of_role played
      have inside : inner ∈ arg.nodes := child_mem_nodes (by simp [whole, children])
      obtain ⟨role, played, h⟩ := ok_of_bind h
      cases role with
      | assignment target value =>
          have part : inner = assign target value := eq_of_role played
          have valueInside : value ∈ inner.nodes := child_mem_nodes (by simp [part, children])
          dsimp only at h
          split at h
          · cases h
            exact inside
          · cases h
            exact nodes_trans valueInside inside
      | _ =>
          cases h
          exact inside
  | assignment target value =>
      have whole : arg = assign target value := eq_of_role played
      have inside : value ∈ arg.nodes := child_mem_nodes (by simp [whole, children])
      obtain ⟨role, played, h⟩ := ok_of_bind h
      cases role with
      | directed directives inner =>
          obtain ⟨letters, part⟩ := eq_of_role played
          have innerInside : inner ∈ value.nodes := child_mem_nodes (by simp [part, children])
          dsimp only at h
          split at h
          · obtain ⟨⟨⟩, failed, -⟩ := ok_of_bind h
            cases failed
          · cases h
            exact nodes_trans innerInside inside
      | _ =>
          cases h
          exact inside
  | _ =>
      cases h
      exact self_mem_nodes arg

/-- Nothing that is left of an argument has a directive inside. -/
theorem undirected_of_refuseInner {p : Peeled} (h : p.refuseInner = .ok ()) :
    p.body.All (fun n => n.isDirected = false)
      ∧ ∀ e ∈ p.target, e.All fun n => n.isDirected = false := by
  simp only [refuseInner] at h
  split at h
  · rename_i empty
    have none (e) (there : e ∈ p.target.toList ++ [p.body]) : e.directiveLetters = [] :=
      List.flatMap_eq_nil_iff.mp (List.isEmpty_iff.mp empty) e there
    refine ⟨undirected_of_letters (none _ (by simp)), fun e is => ?_⟩
    exact undirected_of_letters (none e (by simp [Option.mem_def.mp is]))
  · obtain ⟨combined, -, h⟩ := ok_of_bind h
    split at h <;> cases h

end Peeled

namespace Collected

/-- What holds of the nodes that collecting adds, whatever their parts are. -/
structure Allows (P : Expr → Prop) : Prop where
  field : ∀ name, P (ident (fieldLocal name))
  tuple : ∀ items, P (tuple items)
  assign : ∀ target value, P (assign target value)
  record : ∀ fields, P (record fields)
  block : ∀ statements, P (block statements)

section

variable {P : Expr → Prop}

theorem addField_eq (name : String) (seen : List String) : (addField name).run seen
    = if name ∈ seen then .error (.duplicateTarget name)
      else .ok (ident (fieldLocal name), seen ++ [name]) := by
  change (if seen.contains name then _ else _ : FieldsM Expr).run seen = _
  by_cases known : name ∈ seen
  · rw [if_pos known, if_pos (List.contains_iff_mem.mpr known)]
    rfl
  · rw [if_neg known, if_neg (mt List.contains_iff_mem.mp known)]
    rfl

/-- A field is only added if it is new. -/
theorem addField_ok {name : String} {e : Expr} {seen seen' : List String}
    (h : (addField name).run seen = .ok (e, seen')) :
    name ∉ seen ∧ e = ident (fieldLocal name) ∧ seen' = seen ++ [name] := by
  rw [addField_eq] at h
  split at h <;> cases h
  exact ⟨by assumption, rfl, rfl⟩

theorem Allows.addField (new : Allows P) {name : String} {e : Expr} {s s' : List String}
    (h : (addField name).run s = .ok (e, s')) : e.All P := by
  rw [(addField_ok h).2.1, all_iff]
  exact ⟨new.field name, nofun⟩

theorem Allows.tupleItem (new : Allows P) {t t' : Expr} {s s' : List String}
    (h : (tupleItem t).run s = .ok (t', s')) (old : t.All P) : t'.All P := by
  unfold Collected.tupleItem at h
  split at h
  · exact new.addField h
  · cases h
    exact old
  · cases h
    exact old
  · cases h

theorem Allows.target (new : Allows P) {t t' : Expr} {s s' : List String}
    (h : (target t).run s = .ok (t', s')) (old : t.All P) : t'.All P := by
  unfold Collected.target at h
  split at h
  · exact new.addField h
  · obtain ⟨items', s₁, each, h⟩ := some_of_bind h
    cases h
    refine all_iff.mpr ⟨new.tuple items', fun item' child => ?_⟩
    obtain ⟨item, original, s₂, s₃, collected⟩ := exists_of_mem_right (run_mapM_ok each) child
    exact new.tupleItem collected (old.child original)
  · cases h
    exact old
  · cases h

theorem Allows.statement (new : Allows P) {e e' : Expr} {s s' : List String}
    (h : (statement e).run s = .ok (e', s')) (old : e.All P) : e'.All P := by
  unfold Collected.statement at h
  split at h
  · obtain ⟨t', s₁, collected, h⟩ := some_of_bind h
    cases h
    refine all_iff.mpr ⟨new.assign .., fun c child => ?_⟩
    obtain rfl | rfl := List.mem_pair.mp child
    · exact new.target collected (old.child (by simp [children]))
    · exact old.child (by simp [children])
  · cases h
    exact old

theorem all_of_statementsOf {body : Expr} {statements : List Expr}
    (h : statementsOf body = .ok statements) (old : body.All P) : ∀ s ∈ statements, s.All P := by
  intro s listed
  unfold statementsOf at h
  split at h <;> cases h
  · exact old.child listed
  · obtain rfl := List.mem_singleton.mp listed
    exact old

/-- What holds of every node of a body, and of the nodes that collecting adds, holds of every node
of the collected body. -/
theorem Allows.ofBody (new : Allows P) {body : Expr} {collected : Collected}
    (h : ofBody body = .ok collected) (old : body.All P) : collected.body.All P := by
  obtain ⟨statements, split, h⟩ := ok_of_bind h
  obtain ⟨⟨statements', names⟩, mapped, h⟩ := ok_of_bind h
  dsimp only at h
  split at h <;> cases h
  have inBody := all_of_statementsOf split old
  refine all_iff.mpr ⟨new.block _, fun e' child => ?_⟩
  obtain statement | last := List.mem_append.mp child
  · obtain ⟨e, original, s₁, s₂, collected⟩ := exists_of_mem_right (run_mapM_ok mapped) statement
    exact new.statement collected (inBody e original)
  · obtain rfl := List.mem_singleton.mp last
    refine all_iff.mpr ⟨new.record _, fun c field => ?_⟩
    obtain ⟨name, -, rfl⟩ := by simpa [children] using field
    exact all_iff.mpr ⟨new.field name, by simp [children]⟩

end

end Collected

namespace ArgumentPlan

/-- What holds of every node of an argument taken apart, and of the nodes that collecting adds,
holds of the body that is planned. -/
theorem all_body_of_peeled {P : Expr → Prop} (new : Collected.Allows P) {p : Peeled} {body : Expr}
    {target : Target} (h : bodyAndTarget p = .ok (body, target)) (old : p.body.All P) :
    body.All P := by
  unfold bodyAndTarget at h
  split at h
  · obtain ⟨collected, made, h⟩ := ok_of_bind h
    cases h
    exact new.ofBody made old
  · split at h <;> cases h <;> exact old

/-- What holds of every node of an argument, and of the nodes that collecting adds, holds of the body
that is planned. -/
theorem all_body {P : Expr → Prop} (new : Collected.Allows P) {arg body : Expr} {p : Peeled}
    {target : Target} (peeled : Peeled.ofArgument arg = .ok p)
    (split : bodyAndTarget p = .ok (body, target)) (old : arg.All P) : body.All P := by
  obtain ⟨q, outer, h⟩ := ok_of_bind peeled
  obtain ⟨⟨⟩, -, h⟩ := ok_of_bind h
  cases h
  have inside := Peeled.body_mem_of_outer outer
  exact all_body_of_peeled new split fun n deeper => old n (nodes_trans deeper inside)

/-- The body that is planned has no directive inside. -/
theorem undirected_body {arg body : Expr} {p : Peeled} {target : Target}
    (peeled : Peeled.ofArgument arg = .ok p) (split : bodyAndTarget p = .ok (body, target)) :
    body.All fun n => n.isDirected = false := by
  obtain ⟨q, -, h⟩ := ok_of_bind peeled
  obtain ⟨⟨⟩, refused, h⟩ := ok_of_bind h
  cases h
  exact all_body_of_peeled ⟨fun _ => rfl, fun _ => rfl, fun _ _ => rfl, fun _ => rfl, fun _ => rfl⟩ split
    (Peeled.undirected_of_refuseInner refused).1

end ArgumentPlan

/-- What holds of every node of the arguments of a call holds of every node of those that are
planned. -/
theorem Plan.all_expandBlocks {P : Expr → Prop} {index : Nat} {args expanded : List Expr}
    (h : expandBlocks index args = .ok expanded) (old : ∀ e ∈ args, e.All P) :
    ∀ e ∈ expanded, e.All P := by
  induction args generalizing index expanded with
  | nil =>
      cases h
      simp
  | cons arg rest ih =>
      rw [List.forall_mem_cons] at old
      obtain ⟨role, played, h⟩ := ok_of_bind h
      have part := eq_of_role (ok_of_mapError played)
      cases role with
      | block statements =>
          obtain ⟨others, later, h⟩ := ok_of_bind h
          cases h
          have first : ∀ e ∈ statements, e.All P := fun e inside =>
            old.1.child (by simpa [part, children] using inside)
          exact List.forall_mem_append.mpr ⟨first, ih later old.2⟩
      | _ =>
          obtain ⟨others, later, h⟩ := ok_of_bind h
          cases h
          exact List.forall_mem_cons.mpr ⟨old.1, ih later old.2⟩

end TablePlan
