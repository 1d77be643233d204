import Mathlib.Data.List.Basic
import Mathlib.Data.List.SplitLengths
import TablePlan.Function.Template

/-!
# Traversals of expressions

Every statement about all expressions is proved from one about an expression and its direct parts.
The lists inside an expression are traversed part by part as well, so `nodes` and `substitute`
satisfy equations in which no list is visited by a function of its own.

`replace` is substitution without effects. A node of its result either lies inside a replacement
or has the head of a node that was left alone.
-/

namespace TablePlan.Expr

/-- Induction over an expression from its direct parts. -/
@[elab_as_elim]
theorem childInduction {P : Expr → Prop} (step : ∀ e, (∀ c ∈ e.children, P c) → P e) (e : Expr) :
    P e := by
  refine @Expr.rec P (fun items => ∀ c ∈ items, P c) (fun rows => ∀ c ∈ rows.flatten, P c)
    (fun fields => ∀ c ∈ fields.map Prod.snd, P c) (fun field => P field.2)
    ?literal ?ident ?column ?interpolated ?call ?binary ?unary ?index ?conditional ?vector ?matrix
    ?tuple ?splat ?record ?assign ?directed ?block
    ?noItem ?items ?noRow ?rows ?noField ?fields ?field e
  case literal | ident | column | splat => exact fun _ => step _ (by simp [children])
  case interpolated => exact fun inner ih => step _ (by simpa [children] using ih)
  case unary => exact fun _ operand _ ih => step _ (by simpa [children] using ih)
  case directed => exact fun _ inner ih => step _ (by simpa [children] using ih)
  case binary => exact fun _ left right _ ihl ihr => step _ (by simp [children, ihl, ihr])
  case assign => exact fun target value iht ihv => step _ (by simp [children, iht, ihv])
  case conditional => exact fun cond yes no ihc ihy ihn => step _ (by simp [children, ihc, ihy, ihn])
  case index => exact fun base indices ihb ihs => step _ (List.forall_mem_cons.mpr ⟨ihb, ihs⟩)
  case call => exact fun func args dotted ih => step (call func args dotted) ih
  case vector => exact fun items ih => step (vector items) ih
  case tuple => exact fun items ih => step (tuple items) ih
  case block => exact fun statements ih => step (block statements) ih
  case matrix => exact fun rows ih => step (matrix rows) ih
  case record => exact fun fields ih => step (record fields) ih
  case noItem | noRow | noField => simp
  case items => exact fun item rest ih ihs => List.forall_mem_cons.mpr ⟨ih, ihs⟩
  case rows =>
    intro row rest ih ihs c inside
    obtain first | later := List.mem_append.mp (List.flatten_cons ▸ inside)
    · exact ih c first
    · exact ihs c later
  case fields => exact fun field rest ih ihs => List.forall_mem_cons.mpr ⟨ih, ihs⟩
  case field => exact fun _ _ ih => ih

/-! ### Nodes -/

theorem nodesOfItems_eq (items : List Expr) : nodesOfItems items = items.flatMap nodes := by
  induction items with
  | nil => rfl
  | cons item rest ih => simp [nodesOfItems, ih]

theorem nodesOfRows_eq (rows : List (List Expr)) :
    nodesOfRows rows = rows.flatten.flatMap nodes := by
  induction rows with
  | nil => rfl
  | cons row rest ih => simp [nodesOfRows, nodesOfItems_eq, ih]

theorem nodesOfFields_eq (fields : List (String × Expr)) :
    nodesOfFields fields = (fields.map Prod.snd).flatMap nodes := by
  induction fields with
  | nil => rfl
  | cons field rest ih => simp [nodesOfFields, ih]

/-- The nodes of an expression are the expression and the nodes of its direct parts. -/
theorem nodes_eq (e : Expr) : e.nodes = e :: e.children.flatMap nodes := by
  cases e <;> simp [nodes, children, nodesOfItems_eq, nodesOfRows_eq, nodesOfFields_eq]

theorem mem_nodes_iff {e n : Expr} : n ∈ e.nodes ↔ n = e ∨ ∃ c ∈ e.children, n ∈ c.nodes := by
  rw [nodes_eq, List.mem_cons, List.mem_flatMap]

@[simp] theorem self_mem_nodes (e : Expr) : e ∈ e.nodes :=
  mem_nodes_iff.mpr (Or.inl rfl)

theorem mem_nodes_of_child {e c n : Expr} (child : c ∈ e.children) (inside : n ∈ c.nodes) :
    n ∈ e.nodes :=
  mem_nodes_iff.mpr (Or.inr ⟨c, child, inside⟩)

theorem child_mem_nodes {e c : Expr} (child : c ∈ e.children) : c ∈ e.nodes :=
  mem_nodes_of_child child c.self_mem_nodes

theorem nodes_trans {e n k : Expr} (inner : k ∈ n.nodes) (outer : n ∈ e.nodes) : k ∈ e.nodes := by
  induction e using childInduction with
  | step e ih =>
      obtain rfl | ⟨c, child, inside⟩ := mem_nodes_iff.mp outer
      · exact inner
      · exact mem_nodes_of_child child (ih c child inside)

/-- A property of every node. -/
def All (P : Expr → Prop) (e : Expr) : Prop :=
  ∀ n ∈ e.nodes, P n

theorem all_iff {P : Expr → Prop} {e : Expr} : e.All P ↔ P e ∧ ∀ c ∈ e.children, c.All P := by
  constructor
  · intro h
    exact ⟨h e e.self_mem_nodes, fun c child n inside => h n (mem_nodes_of_child child inside)⟩
  · rintro ⟨self, parts⟩ n inside
    obtain rfl | ⟨c, child, inside⟩ := mem_nodes_iff.mp inside
    · exact self
    · exact parts c child n inside

theorem All.child {P : Expr → Prop} {e c : Expr} (h : e.All P) (child : c ∈ e.children) : c.All P :=
  (all_iff.mp h).2 c child

/-! ### Substitution -/

section Substitution

variable {m : Type → Type} [Monad m] [LawfulMonad m] (f : Expr → Option (m Expr))

theorem substituteItems_eq (items : List Expr) :
    substituteItems f items = items.mapM (substitute f) := by
  induction items with
  | nil => simp [substituteItems]
  | cons item rest ih => simp [substituteItems, ih]

theorem substituteRows_eq (rows : List (List Expr)) :
    substituteRows f rows = rows.mapM fun row => row.mapM (substitute f) := by
  induction rows with
  | nil => simp [substituteRows]
  | cons row rest ih => simp [substituteRows, substituteItems_eq, ih]

theorem substituteFields_eq (fields : List (String × Expr)) :
    substituteFields f fields
      = fields.mapM fun field => return (field.1, ← substitute f field.2) := by
  induction fields with
  | nil => simp [substituteFields]
  | cons field rest ih => simp [substituteFields, ih]

/-- Substitution answers for a node or works on its direct parts. -/
theorem substitute_eq (e : Expr) :
    e.substitute f = (f e).getD (e.mapChildren (substitute f)) := by
  cases h : f e with
  | some answer => rw [substitute.eq_def, h, Option.getD_some]
  | none =>
      rw [substitute.eq_def, h, Option.getD_none]
      cases e <;> simp only [mapChildren, substituteItems_eq, substituteRows_eq, substituteFields_eq]

end Substitution

/-! ### Rebuilding -/

/-- The expression with other direct parts in place of its own. -/
def withChildren : Expr → List Expr → Expr
  | interpolated _, [inner] => interpolated inner
  | call func _ dotted, args => call func args dotted
  | binary op _ _ dotted, [left, right] => binary op left right dotted
  | unary op _ dotted, [operand] => unary op operand dotted
  | index _ _, base :: indices => index base indices
  | conditional _ _ _, [cond, yes, no] => conditional cond yes no
  | vector _, items => vector items
  | matrix rows, items => matrix ((rows.map List.length).splitLengths items)
  | tuple _, items => tuple items
  | record fields, values => record ((fields.map Prod.fst).zip values)
  | assign _ _, [target, value] => assign target value
  | directed letters _, [inner] => directed letters inner
  | block _, statements => block statements
  | e, _ => e

theorem splitLengths_map_flatten {α β : Type} (f : α → β) (rows : List (List α)) :
    (rows.map List.length).splitLengths (rows.flatten.map f) = rows.map (List.map f) := by
  induction rows with
  | nil => rfl
  | cons row rest ih =>
      rw [List.map_cons, List.flatten_cons, List.map_append, List.splitLengths_cons,
        List.take_left' (by simp), List.drop_left' (by simp), ih, List.map_cons]

/-- Rebuilding keeps what an expression is made with besides its parts. -/
theorem children_withChildren {e : Expr} {cs : List Expr} (count : cs.length = e.children.length) :
    (e.withChildren cs).children = cs := by
  cases e
  case matrix rows =>
    refine List.flatten_splitLengths _ _ ?_
    simp [count, children, List.length_flatten]
  case record fields =>
    exact List.map_snd_zip (by simpa [children] using count.le)
  case interpolated | unary | directed =>
    obtain ⟨c, rfl⟩ := List.length_eq_one_iff.mp count
    rfl
  case binary | assign =>
    obtain ⟨c, d, rfl⟩ := List.length_eq_two.mp count
    rfl
  case conditional =>
    obtain ⟨c, d, b, rfl⟩ := List.length_eq_three.mp count
    rfl
  case index =>
    obtain ⟨c, cs, rfl⟩ := List.exists_cons_of_length_eq_add_one count
    rfl
  case literal | ident | column | splat => exact (List.eq_nil_of_length_eq_zero count).symm
  all_goals rfl

section

variable {m : Type → Type} [Monad m] [LawfulMonad m]

/-- What follows a traversal may rely on the number of its results. -/
theorem mapM_bind_congr {α β γ : Type} {f : α → m β} {as : List α} {g h : List β → m γ}
    (same : ∀ bs, bs.length = as.length → g bs = h bs) : as.mapM f >>= g = as.mapM f >>= h := by
  induction as generalizing g h with
  | nil => simpa using same [] rfl
  | cons a rest ih =>
      simp only [List.mapM_cons, bind_assoc, pure_bind]
      refine bind_congr fun b => ih fun bs count => same (b :: bs) ?_
      rw [List.length_cons, List.length_cons, count]

theorem mapM_rows {α β : Type} (f : α → m β) (rows : List (List α)) :
    rows.mapM (List.mapM f)
      = (rows.map List.length).splitLengths <$> rows.flatten.mapM f := by
  induction rows with
  | nil => simp
  | cons row rest ih =>
      simp only [List.mapM_cons, ih, List.flatten_cons, List.mapM_append, map_eq_pure_bind,
        bind_assoc, pure_bind, List.map_cons, List.splitLengths_cons]
      refine mapM_bind_congr fun bs count => ?_
      refine bind_congr fun cs => ?_
      rw [List.take_left' count, List.drop_left' count]

theorem mapM_fields {α β γ : Type} (f : β → m γ) (fields : List (α × β)) :
    (fields.mapM fun field => return (field.1, ← f field.2))
      = (fields.map Prod.fst).zip <$> (fields.map Prod.snd).mapM f := by
  induction fields with
  | nil => simp
  | cons field rest ih => simp [-bind_pure_comp, ih, map_eq_pure_bind]

/-- Acting on the direct parts is acting on a list of them and rebuilding. -/
theorem mapChildren_eq (f : Expr → m Expr) (e : Expr) :
    e.mapChildren f = e.withChildren <$> e.children.mapM f := by
  cases e
  case matrix rows =>
    simp only [mapChildren, children, mapM_rows, Functor.map_map]
    rfl
  case record fields =>
    simp only [mapChildren, children, mapM_fields, Functor.map_map]
    rfl
  all_goals simp [-bind_pure_comp, mapChildren, children, withChildren, map_eq_pure_bind]

end

/-- The expression with every direct part replaced. -/
def mapParts (f : Expr → Expr) (e : Expr) : Expr :=
  e.withChildren (e.children.map f)

theorem mapParts_eq (f : Expr → Expr) (e : Expr) :
    e.mapParts f = match e with
      | interpolated inner => interpolated (f inner)
      | call func args dotted => call func (args.map f) dotted
      | binary op left right dotted => binary op (f left) (f right) dotted
      | unary op operand dotted => unary op (f operand) dotted
      | index base indices => index (f base) (indices.map f)
      | conditional cond yes no => conditional (f cond) (f yes) (f no)
      | vector items => vector (items.map f)
      | matrix rows => matrix (rows.map fun row => row.map f)
      | tuple items => tuple (items.map f)
      | record fields => record (fields.map fun field => (field.1, f field.2))
      | assign target value => assign (f target) (f value)
      | directed letters inner => directed letters (f inner)
      | block statements => block (statements.map f)
      | leaf => leaf := by
  cases e
  case matrix rows => exact congrArg matrix (splitLengths_map_flatten f rows)
  case record fields =>
    simp [mapParts, withChildren, children, List.zip_map', Function.comp_def]
  all_goals rfl

@[simp] theorem children_mapParts (f : Expr → Expr) (e : Expr) :
    (e.mapParts f).children = e.children.map f :=
  children_withChildren (by simp)

theorem splitLengths_map {α β : Type} (f : α → β) (lengths : List Nat) (items : List α) :
    lengths.splitLengths (items.map f) = (lengths.splitLengths items).map (List.map f) := by
  induction lengths generalizing items with
  | nil => rfl
  | cons n lengths ih =>
      simp only [List.splitLengths_cons, ← List.map_take, ← List.map_drop, ih, List.map_cons]

/-- Replacing the parts of an expression that was rebuilt is rebuilding it with other parts. -/
theorem mapParts_withChildren {e : Expr} {cs : List Expr} (count : cs.length = e.children.length)
    (f : Expr → Expr) : (e.withChildren cs).mapParts f = e.withChildren (cs.map f) := by
  rw [mapParts_eq]
  cases e
  case matrix rows =>
    exact congrArg matrix (splitLengths_map f _ cs).symm
  case record fields =>
    simp [withChildren, List.zip_map_right]
  case interpolated | unary | directed =>
    obtain ⟨c, rfl⟩ := List.length_eq_one_iff.mp count
    rfl
  case binary | assign =>
    obtain ⟨c, d, rfl⟩ := List.length_eq_two.mp count
    rfl
  case conditional =>
    obtain ⟨c, d, b, rfl⟩ := List.length_eq_three.mp count
    rfl
  case index =>
    obtain ⟨c, cs, rfl⟩ := List.exists_cons_of_length_eq_add_one count
    rfl
  all_goals rfl

theorem mapParts_congr {f g : Expr → Expr} {e : Expr} (h : ∀ c ∈ e.children, f c = g c) :
    e.mapParts f = e.mapParts g :=
  congrArg e.withChildren (List.map_congr_left h)

@[simp] theorem mapParts_id (e : Expr) : e.mapParts id = e := by
  rw [mapParts_eq]
  cases e <;> simp

theorem withChildren_children (e : Expr) : e.withChildren e.children = e := by
  simpa [mapParts] using e.mapParts_id

/-- Replace the outermost nodes that `g` has an answer for. -/
def replace (g : Expr → Option Expr) (e : Expr) : Expr :=
  Id.run (e.substitute fun e => (g e).map pure)

theorem replace_eq (g : Expr → Option Expr) (e : Expr) :
    e.replace g = (g e).getD (e.mapParts (replace g)) := by
  rw [replace, substitute_eq, mapChildren_eq]
  cases g e with
  | some answer => rfl
  | none =>
      simp only [Option.map_none, Option.getD_none, Id.run_map, List.idRun_mapM, mapParts]
      rfl

theorem replace_of_some {g : Expr → Option Expr} {e answer : Expr} (h : g e = some answer) :
    e.replace g = answer := by
  rw [replace_eq, h, Option.getD_some]

theorem replace_of_none {g : Expr → Option Expr} {e : Expr} (h : g e = none) :
    e.replace g = e.mapParts (replace g) := by
  rw [replace_eq, h, Option.getD_none]

/-- Where a node of the result of a replacement comes from. -/
theorem mem_nodes_replace {g : Expr → Option Expr} {e n : Expr} (h : n ∈ (e.replace g).nodes) :
    ∃ k ∈ e.nodes, (∃ answer, g k = some answer ∧ n ∈ answer.nodes)
      ∨ (g k = none ∧ n = k.mapParts (replace g)) := by
  induction e using childInduction with
  | step e ih =>
      cases answered : g e with
      | some answer =>
          rw [replace_of_some answered] at h
          exact ⟨e, e.self_mem_nodes, Or.inl ⟨answer, answered, h⟩⟩
      | none =>
          rw [replace_of_none answered, mem_nodes_iff, children_mapParts] at h
          obtain rfl | ⟨_, mapped, inside⟩ := h
          · exact ⟨e, e.self_mem_nodes, Or.inr ⟨answered, rfl⟩⟩
          · obtain ⟨c, child, rfl⟩ := List.mem_map.mp mapped
            obtain ⟨k, inChild, origin⟩ := ih c child inside
            exact ⟨k, mem_nodes_of_child child inChild, origin⟩

/-! ### Directives -/

/-- Whether a directive is around an expression. -/
def isDirected : Expr → Bool
  | directed _ _ => true
  | _ => false

theorem isReference_withChildren (e : Expr) (cs : List Expr) :
    (e.withChildren cs).isReference = e.isReference := by
  unfold withChildren
  split <;> rfl

theorem isDirected_withChildren (e : Expr) (cs : List Expr) :
    (e.withChildren cs).isDirected = e.isDirected := by
  unfold withChildren
  split <;> rfl

end TablePlan.Expr
