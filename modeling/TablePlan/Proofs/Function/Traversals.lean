import TablePlan.Proofs.Expr.Places
import TablePlan.Proofs.Function.Merging
import TablePlan.Proofs.Function.References

/-!
# What is rewritten and what is inspected

Checks go through the nodes of an expression; renaming and the replacement of references rebuild it
part by part. Both see the same parts in the same order, so a check of the result finds at every
place what the node there was rewritten to. Only what is inside a reference is not found any more: it
left the expression with the reference.
-/

namespace TablePlan

/-- Lists that are related element by element end at the same position. -/
theorem related_at {α β : Type} {R : α → β → Prop} {as : List α} {bs : List β}
    (h : List.Forall₂ R as bs) (i : Nat) :
    (as[i]? = none ∧ bs[i]? = none) ∨ ∃ a b, as[i]? = some a ∧ bs[i]? = some b ∧ R a b := by
  cases there : bs[i]? with
  | none =>
      rw [List.getElem?_eq_none_iff, ← h.length_eq] at there
      exact .inl ⟨List.getElem?_eq_none there, rfl⟩
  | some b =>
      obtain ⟨a, own, related⟩ := getElem?_of_forall₂ h there
      exact .inr ⟨a, b, own, rfl, related⟩

namespace Expr

open Binding

/-! ### Rebuilding in order -/

section

variable {m : Type → Type} [Monad m] [LawfulMonad m]

/-- The parts of a rebuilt expression are the results for its parts, computed from left to right. -/
theorem children_mapChildren (f : Expr → m Expr) (e : Expr) :
    children <$> e.mapChildren f = e.children.mapM f := by
  rw [mapChildren_eq, Functor.map_map, map_eq_pure_bind]
  calc e.children.mapM f >>= (fun cs => pure (e.withChildren cs).children)
      = e.children.mapM f >>= pure :=
        mapM_bind_congr fun cs count => congrArg pure (children_withChildren count)
    _ = e.children.mapM f := bind_pure _

theorem mapChildren_pure (e : Expr) : e.mapChildren (pure : Expr → m Expr) = pure e := by
  have same : e.children.mapM (pure : Expr → m Expr) = pure e.children := by
    simpa using List.mapM_pure (m := m) (l := e.children) (f := id)
  rw [mapChildren_eq, same, map_pure, withChildren_children]

end

/-! ### Place by place -/

/-- No node above the place passes the test. -/
def Exposed (stop : Expr → Bool) (e : Expr) (place : List Nat) : Prop :=
  ∀ above below n, place = above ++ below → below ≠ [] → e.at? above = some n → stop n = false

/-- At every place below none of the nodes that pass the test, both expressions have nodes of which
`R` holds, or neither has one. At all other places the second has none. -/
structure Corresponds (stop : Expr → Bool) (R : Expr → Expr → Prop) (e e' : Expr) : Prop where
  exposed (place : List Nat) : Exposed stop e place → Option.Rel R (e.at? place) (e'.at? place)
  hidden (place : List Nat) : ¬ Exposed stop e place → e'.at? place = none

variable {stop : Expr → Bool} {R S : Expr → Expr → Prop} {e e' : Expr}

theorem exposed_nil : Exposed stop e [] := by
  rintro above below n split proper -
  exact absurd (List.append_eq_nil_iff.mp split.symm).2 proper

theorem exposed_cons {i : Nat} {place : List Nat} : Exposed stop e (i :: place)
    ↔ stop e = false ∧ ∀ c, e.children[i]? = some c → Exposed stop c place := by
  constructor
  · intro h
    refine ⟨h [] (i :: place) e rfl (List.cons_ne_nil _ _) rfl, fun c child => ?_⟩
    rintro above below n rfl proper there
    refine h (i :: above) below n rfl proper ?_
    rw [at?, child, Option.bind_some, there]
  · rintro ⟨own, parts⟩ above below n split proper there
    cases above with
    | nil =>
        obtain rfl := Option.some.inj there
        exact own
    | cons j above =>
        obtain ⟨rfl, rfl⟩ := List.cons.inj split
        obtain ⟨c, child, there⟩ := Option.bind_eq_some_iff.mp there
        exact parts c child above below n rfl proper there

namespace Corresponds

theorem mono (h : Corresponds stop R e e') (weaker : ∀ n n', R n n' → S n n') :
    Corresponds stop S e e' where
  exposed place own :=
    match e.at? place, e'.at? place, h.exposed place own with
    | _, _, .none => .none
    | _, _, .some related => .some (weaker _ _ related)
  hidden := h.hidden

/-- Two nodes correspond if their parts do, or if the test is passed and the second has none. -/
theorem of_parts (own : R e e') (stopped : stop e = true → e'.children = [])
    (parts : stop e = false → List.Forall₂ (Corresponds stop R) e.children e'.children) :
    Corresponds stop R e e' := by
  constructor
  case exposed =>
    intro place exposed
    cases place with
    | nil => exact .some own
    | cons i place =>
        obtain ⟨going, later⟩ := exposed_cons.mp exposed
        rw [at?, at?]
        obtain ⟨absent, absent'⟩ | ⟨c, c', child, child', related⟩ := related_at (parts going) i
        · rw [absent, absent']
          exact .none
        · rw [child, child']
          exact related.exposed place (later c child)
  case hidden =>
    intro place covered
    cases place with
    | nil => exact absurd exposed_nil covered
    | cons i place =>
        rw [at?]
        cases passes : stop e with
        | true => simp [stopped passes]
        | false =>
            obtain ⟨-, absent'⟩ | ⟨c, c', child, child', related⟩ := related_at (parts passes) i
            · rw [absent', Option.bind_none]
            · rw [child', Option.bind_some]
              refine related.hidden place fun exposed => covered (exposed_cons.mpr ⟨passes, ?_⟩)
              rintro d there
              obtain rfl := Option.some.inj (child.symm.trans there)
              exact exposed

end Corresponds

/-! ### Renaming and replacing -/

/-- What renaming makes of a node: another name of a name, the same node with other parts of
anything else. -/
inductive Renamed (aliases : List (String × String)) : Expr → Expr → Prop
  | name (name : String) : Renamed aliases (ident name) (ident (renamed aliases name))
  | kept {n : Expr} {cs : List Expr} (other : ∀ name, n ≠ ident name)
    (count : cs.length = n.children.length) : Renamed aliases n (n.withChildren cs)

/-- What replacing references makes of a node: the parameter that a reference is bound to, the same
node with other parts of anything else. -/
inductive Replaced (bindings : List Binding) : Expr → Expr → Prop
  | reference {n : Expr} {r : Reference} {b : Binding} (own : n.reference? = some r)
    (bound : b ∈ bindings) (alike : b.reference = r ∨ b.reference == r) :
    Replaced bindings n (ident b.param)
  | kept {n : Expr} {cs : List Expr} (unread : n.reference? = none)
    (count : cs.length = n.children.length) : Replaced bindings n (n.withChildren cs)

theorem Replaced.mono {bindings more : List Binding} (grown : bindings <+: more) {n n' : Expr}
    (h : Replaced bindings n n') : Replaced more n n' := by
  cases h with
  | reference own bound alike => exact .reference own (grown.subset bound) alike
  | kept unread count => exact .kept unread count

/-- Renaming rewrites the names at all places, and nothing else. -/
theorem corresponds_rename (aliases : List (String × String)) (e : Expr) :
    Corresponds (fun _ => false) (Renamed aliases) e (e.rename aliases) := by
  induction e using childInduction with
  | step e ih =>
      by_cases named : ∃ name, e = ident name
      · obtain ⟨name, rfl⟩ := named
        rw [rename_ident]
        exact .of_parts (.name name) nofun fun _ => .nil
      · have other : ∀ name, e ≠ ident name := fun name is => named ⟨name, is⟩
        rw [rename_eq other]
        refine .of_parts (.kept other (List.length_map _)) nofun fun _ => ?_
        rw [children_mapParts, List.forall₂_map_right_iff]
        exact List.forall₂_same.mpr ih

/-- Replacing references rewrites those at all places that are not inside another one, and nothing
else. -/
theorem corresponds_replaceReferences {bindings : List Binding} (numbered : Numbered bindings)
    (e : Expr) : Corresponds isReference (Replaced (e.replaceReferences.run bindings).2) e
      (e.replaceReferences.run bindings).1 := by
  have sound : Sound (fun _ => True) bindings := ⟨numbered, fun _ _ => trivial⟩
  refine (replaceReferences_adds (Q := fun _ => True)
    (R := fun more e e' => Corresponds isReference (Replaced more) e e')
    ?grow ?answer ?rebuild (fun _ _ => trivial) sound).2.2
  case grow => exact fun e e' bindings more grown h => h.mono fun _ _ => .mono grown
  case answer =>
    intro e r bindings _ reference sound
    refine (bind_adds trivial sound).mono fun more param _ => ?_
    rintro ⟨b, bound, rfl, alike⟩
    refine .of_parts (.reference reference bound alike) (fun _ => rfl) fun unread => ?_
    rw [isReference_of_reference? reference] at unread
    cases unread
  case rebuild =>
    intro e cs bindings _ unread parts
    have count := parts.length_eq.symm
    refine .of_parts (.kept unread count) (fun read => ?_) fun _ => ?_
    · rw [isReference_eq_false unread] at read
      cases read
    · rwa [children_withChildren count]

/-- The traversals of an expression see the same nodes. Rebuilding computes the new parts from the
parts in their order, whatever effects that has, and nothing changes if they stay. The list of the
nodes goes through the parts likewise and visits every place once, a node before its parts and these
from left to right, so a search finds the first node that passes. Renaming and the replacement of
references rewrite what is at those places, so that every check of the result inspects what a node of
the expression was rewritten to, and misses only what has left the expression inside a reference. -/
theorem traversals_agree (e : Expr) :
    (∀ (m : Type → Type) [Monad m] [LawfulMonad m],
        (∀ f : Expr → m Expr, children <$> e.mapChildren f = e.children.mapM f)
          ∧ e.mapChildren (pure : Expr → m Expr) = pure e)
      ∧ e.nodes = e :: e.children.flatMap nodes
      ∧ (∃ places, Visits e.at? e.nodes places)
      ∧ (∀ test : Expr → Bool,
        e.find? test = (if test e then some e else e.children.findSome? (find? test))
          ∧ (e.find? test = none ↔ ∀ place n, e.at? place = some n → test n = false)
          ∧ ∀ n, e.find? test = some n ↔ ∃ place, e.at? place = some n ∧ test n = true
            ∧ ∀ earlier < place, ∀ k, e.at? earlier = some k → test k = false)
      ∧ (∀ aliases, Corresponds (fun _ => false) (Renamed aliases) e (e.rename aliases))
      ∧ ∀ bindings, Numbered bindings →
        Corresponds isReference (Replaced (e.replaceReferences.run bindings).2) e
          (e.replaceReferences.run bindings).1 := by
  obtain ⟨places, visits⟩ := exists_visits e
  refine ⟨fun m _ _ => ⟨fun f => children_mapChildren f e, mapChildren_pure e⟩, nodes_eq e,
    ⟨places, visits⟩, fun test => ⟨find?_eq test e, ?_, fun n => ?_⟩,
    fun aliases => corresponds_rename aliases e,
    fun bindings numbered => corresponds_replaceReferences numbered e⟩
  · exact visits.find?_eq_none_iff
  · exact visits.find?_eq_some_iff

/-- What an interpolation specifies its column by is found by a visit, and is gone once the
references are replaced. -/
theorem interpolated_name_leaves :
    let e : Expr := .binary .add (.call "f" [.ident "v", .interpolated (.ident "w")] false)
      (.column (.name "a")) false
    let noted (c : Expr) : StateM (List Expr) Expr := do
      modify (· ++ [c])
      return c
    (children <$> e.mapChildren noted).run [] = (e.children, e.children)
      ∧ (∃ place, e.at? place = some (.interpolated (.ident "w"))
        ∧ ∀ earlier < place, ∀ k, e.at? earlier = some k → k.isReference = false)
      ∧ e.at? [0, 1, 0] = some (.ident "w") ∧ Numbered []
      ∧ (e.replaceReferences.run []).1.at? [0, 1, 0] = none := by
  intro e noted
  obtain ⟨rebuilt, -, -, searched, -, replaced⟩ := traversals_agree e
  obtain ⟨inOrder, -⟩ := rebuilt (StateM (List Expr))
  obtain ⟨-, -, found⟩ := searched isReference
  obtain ⟨place, there, -, first⟩ := (found (.interpolated (.ident "w"))).mp rfl
  have covered : ¬ Exposed isReference e [0, 1, 0] := fun exposed =>
    nomatch exposed [0, 1] [0] (.interpolated (.ident "w")) rfl (List.cons_ne_nil _ _) rfl
  refine ⟨?_, ⟨place, there, first⟩, rfl, numbered_nil, ?_⟩
  · rw [inOrder noted]
    rfl
  · exact (replaced [] numbered_nil).hidden [0, 1, 0] covered

end Expr

end TablePlan
