import Mathlib.Data.List.Lex
import TablePlan.Proofs.Expr.Traversal

/-!
# Places of nodes

A node of an expression stands at a place: the numbers of the parts to step into, from the outside
in. Places are ordered like the words of a dictionary, so that a node comes before its parts and
these come from left to right. The list of the nodes goes through all places in this order.
-/

namespace TablePlan.Expr

/-- The node at a place. -/
def at? : Expr → List Nat → Option Expr
  | e, [] => some e
  | e, i :: place => (e.children[i]?).bind fun c => at? c place

/-- The node at a place in several expressions, where the first number selects one of them. -/
def atItem? (items : List Expr) : List Nat → Option Expr
  | [] => none
  | i :: place => (items[i]?).bind fun c => c.at? place

/-- The same place one expression further on. -/
def stepRight : List Nat → List Nat
  | [] => []
  | i :: place => (i + 1) :: place

theorem stepRight_lt_stepRight {place other : List Nat} (h : place < other) :
    stepRight place < stepRight other := by
  cases place with
  | nil =>
      cases other with
      | nil => exact absurd h (List.lt_irrefl _)
      | cons j other => exact List.nil_lt_cons ..
  | cons i place =>
      cases other with
      | nil => cases h
      | cons j other =>
          refine List.cons_lt_cons_iff.mpr ((List.cons_lt_cons_iff.mp h).imp ?_ ?_)
          · exact Nat.succ_lt_succ
          · exact And.imp_left (congrArg Nat.succ)

theorem stepRight_eq_succ {place rest : List Nat} {i : Nat} :
    stepRight place = (i + 1) :: rest ↔ place = i :: rest := by
  cases place <;> simp [stepRight]

theorem stepRight_ne_zero (place rest : List Nat) : stepRight place ≠ 0 :: rest := by
  cases place <;> simp [stepRight]

/-! ### Visits -/

/-- Nodes are listed place by place: the places ascend, every place where there is a node is among
them, and the nodes are those that are there. -/
structure Visits (look : List Nat → Option Expr) (nodes : List Expr) (places : List (List Nat)) :
    Prop where
  ascending : places.Pairwise (· < ·)
  complete (place : List Nat) : place ∈ places ↔ (look place).isSome
  reached : places.map look = nodes.map some

namespace Visits

variable {look : List Nat → Option Expr} {nodes : List Expr} {places : List (List Nat)}

theorem nil : Visits (atItem? []) [] [] := by
  refine ⟨.nil, fun place => ?_, rfl⟩
  cases place <;> simp [atItem?]

/-- In several expressions no place is empty: the first number selects one of them. -/
theorem exists_eq_cons {items : List Expr} (h : Visits (atItem? items) nodes places)
    {place : List Nat} (listed : place ∈ places) : ∃ i rest, place = i :: rest := by
  cases place with
  | nil => cases (h.complete []).mp listed
  | cons i rest => exact ⟨i, rest, rfl⟩

/-- The places in the first expression, then those in the others. -/
theorem cons {item : Expr} {items : List Expr} {others : List (List Nat)}
    (first : Visits item.at? item.nodes places)
    (rest : Visits (atItem? items) (items.flatMap Expr.nodes) others) :
    Visits (atItem? (item :: items)) ((item :: items).flatMap Expr.nodes)
      (places.map (0 :: ·) ++ others.map stepRight) := by
  have further : ∀ place ∈ others,
      atItem? (item :: items) (stepRight place) = atItem? items place := by
    intro place listed
    obtain ⟨i, place, rfl⟩ := rest.exists_eq_cons listed
    rfl
  refine ⟨?ascending, fun place => ?complete, ?reached⟩
  case ascending =>
    refine List.pairwise_append.mpr ⟨?_, ?_, ?_⟩
    · exact List.pairwise_map.mpr (first.ascending.imp fun less =>
        List.cons_lt_cons_iff.mpr (.inr ⟨rfl, less⟩))
    · exact List.pairwise_map.mpr (rest.ascending.imp stepRight_lt_stepRight)
    · intro place own other listed
      obtain ⟨place, -, rfl⟩ := List.mem_map.mp own
      obtain ⟨other, there, rfl⟩ := List.mem_map.mp listed
      obtain ⟨i, other, rfl⟩ := rest.exists_eq_cons there
      exact List.cons_lt_cons_iff.mpr (.inl i.succ_pos)
  case complete =>
    rw [List.mem_append, List.mem_map, List.mem_map]
    -- The first number tells the places in the first expression from those further on.
    match place with
    | [] =>
        refine iff_of_false ?_ nofun
        rintro (⟨place, -, none⟩ | ⟨place, listed, none⟩)
        · cases none
        · obtain ⟨i, place, rfl⟩ := rest.exists_eq_cons listed
          cases none
    | 0 :: place =>
        simp only [List.cons.injEq, true_and, exists_eq_right, stepRight_ne_zero, and_false,
          exists_false, or_false]
        exact first.complete place
    | (i + 1) :: place =>
        simp only [List.cons.injEq, Nat.zero_ne_add_one, false_and, and_false, exists_false,
          false_or, stepRight_eq_succ, exists_eq_right]
        exact rest.complete (i :: place)
  case reached =>
    rw [List.map_append, List.flatMap_cons, List.map_append, List.map_map, List.map_map,
      ← rest.reached, ← first.reached]
    exact congrArg _ (List.map_congr_left further)

/-- The place of an expression comes before those of its parts. -/
theorem outer {e : Expr}
    (parts : Visits (atItem? e.children) (e.children.flatMap Expr.nodes) places) :
    Visits e.at? e.nodes ([] :: places) := by
  refine ⟨?ascending, fun place => ?complete, ?reached⟩
  case ascending =>
    refine List.pairwise_cons.mpr ⟨fun place listed => ?_, parts.ascending⟩
    obtain ⟨i, place, rfl⟩ := parts.exists_eq_cons listed
    exact List.nil_lt_cons ..
  case complete =>
    cases place with
    | nil => exact iff_of_true List.mem_cons_self rfl
    | cons i place =>
        rw [List.mem_cons, or_iff_right (by simp), parts.complete]
        rfl
  case reached =>
    rw [nodes_eq, List.map_cons, List.map_cons, ← parts.reached]
    refine congrArg _ (List.map_congr_left fun place listed => ?_)
    obtain ⟨i, place, rfl⟩ := parts.exists_eq_cons listed
    rfl

end Visits

/-- The list of the nodes visits all places. -/
theorem exists_visits (e : Expr) : ∃ places, Visits e.at? e.nodes places := by
  induction e using childInduction with
  | step e ih =>
      have parts : ∃ places, Visits (atItem? e.children) (e.children.flatMap nodes) places := by
        generalize e.children = items at ih
        induction items with
        | nil => exact ⟨[], .nil⟩
        | cons item items others =>
            obtain ⟨own, each⟩ := List.forall_mem_cons.mp ih
            obtain ⟨places, first⟩ := own
            obtain ⟨more, rest⟩ := others each
            exact ⟨_, first.cons rest⟩
      obtain ⟨places, parts⟩ := parts
      exact ⟨[] :: places, parts.outer⟩

namespace Visits

variable {look : List Nat → Option Expr} {nodes : List Expr} {places : List (List Nat)}

theorem mem_nodes_iff (h : Visits look nodes places) {n : Expr} :
    n ∈ nodes ↔ ∃ place, look place = some n := by
  have listed : n ∈ nodes ↔ some n ∈ places.map look := by
    simp [h.reached]
  rw [listed, List.mem_map]
  constructor
  · exact fun ⟨place, _, there⟩ => ⟨place, there⟩
  · exact fun ⟨place, there⟩ => ⟨place, (h.complete place).mpr (by simp [there]), there⟩

/-- The nodes before one are those at earlier places. -/
theorem mem_before_iff (h : Visits look nodes places) {before after : List Expr} {n : Expr}
    (split : nodes = before ++ n :: after) : ∃ place, look place = some n
      ∧ ∀ k, k ∈ before ↔ ∃ earlier < place, look earlier = some k := by
  have reached := h.reached
  rw [split, List.map_append, List.map_cons] at reached
  obtain ⟨first, rest, listed, own, others⟩ := List.map_eq_append_iff.mp reached
  obtain ⟨place, last, rfl, there, -⟩ := List.map_eq_cons_iff.mp others
  have ordered := h.ascending
  rw [listed, List.pairwise_append, List.pairwise_cons] at ordered
  obtain ⟨-, ⟨following, -⟩, preceding⟩ := ordered
  refine ⟨place, there, fun k => ?_⟩
  have among : k ∈ before ↔ some k ∈ first.map look := by
    simp [own]
  rw [among, List.mem_map]
  constructor
  · rintro ⟨earlier, inside, found⟩
    exact ⟨earlier, preceding earlier inside place List.mem_cons_self, found⟩
  · rintro ⟨earlier, less, found⟩
    have inside : earlier ∈ places := (h.complete earlier).mpr (by simp [found])
    rw [listed, List.mem_append, List.mem_cons] at inside
    obtain first | rfl | last := inside
    · exact ⟨earlier, first, found⟩
    · exact absurd less (List.lt_irrefl _)
    · exact absurd less (List.lt_asymm (following earlier last))

/-- A node that is found is the first one: no node at an earlier place passes the test. -/
theorem first_of_find? (h : Visits look nodes places) {test : Expr → Bool} {n : Expr}
    (found : nodes.find? test = some n) : ∃ place, look place = some n ∧ test n = true
      ∧ ∀ earlier < place, ∀ k, look earlier = some k → test k = false := by
  obtain ⟨passes, before, after, split, refused⟩ := List.find?_eq_some_iff_append.mp found
  obtain ⟨place, there, mem⟩ := h.mem_before_iff split
  refine ⟨place, there, passes, fun earlier less k found => ?_⟩
  simpa using refused k ((mem k).mpr ⟨earlier, less, found⟩)

theorem find?_eq_some_iff (h : Visits look nodes places) {test : Expr → Bool} {n : Expr} :
    nodes.find? test = some n ↔ ∃ place, look place = some n ∧ test n = true
      ∧ ∀ earlier < place, ∀ k, look earlier = some k → test k = false := by
  refine ⟨h.first_of_find?, ?_⟩
  rintro ⟨place, there, passes, refused⟩
  have listed : n ∈ nodes := h.mem_nodes_iff.mpr ⟨place, there⟩
  obtain ⟨first, found⟩ :=
    Option.isSome_iff_exists.mp (List.find?_isSome.mpr ⟨n, listed, passes⟩)
  obtain ⟨other, there', passes', refused'⟩ := h.first_of_find? found
  -- Neither place comes before the other, as both nodes pass the test.
  obtain less | rfl | less := lt_trichotomy place other
  · exact absurd passes (by simp [refused' place less n there])
  · rw [found, ← there', there]
  · exact absurd passes' (by simp [refused other less first there'])

theorem find?_eq_none_iff (h : Visits look nodes places) {test : Expr → Bool} :
    nodes.find? test = none ↔ ∀ place n, look place = some n → test n = false := by
  simp only [List.find?_eq_none, h.mem_nodes_iff, Bool.not_eq_true]
  exact ⟨fun each place n there => each n ⟨place, there⟩,
    fun each n ⟨place, there⟩ => each place n there⟩

end Visits

/-! ### Searching -/

/-- A search tries a node before its parts, and these from left to right. -/
theorem find?_eq (test : Expr → Bool) (e : Expr) :
    e.find? test = if test e then some e else e.children.findSome? (find? test) := by
  rw [find?, nodes_eq, List.find?_cons]
  cases test e with
  | true => rfl
  | false => rw [List.find?_flatMap]; rfl

end TablePlan.Expr
