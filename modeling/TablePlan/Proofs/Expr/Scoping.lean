import TablePlan.Proofs.Expr.Traversal

/-!
# Static scoping

`binds` lists the names that an expression has bound by the time its value is known. `strays` lists
the names that an expression uses where nothing written before has bound them: a name of a block is
gone after the block, one of a branch is bound only if the other branch binds it too, and what an
operator may skip binds nothing.
-/

namespace TablePlan

namespace Expr

mutual

/-- The names that an evaluation leaves bound. -/
def binds : Expr → List String
  | literal _ | ident _ | column _ | splat _ | interpolated _ | directed _ _ | block _ => []
  | unary _ operand _ => operand.binds
  | call _ args _ => bindsOfItems args
  | binary .and left _ _ | binary .or left _ _ => left.binds
  | binary _ left right _ => left.binds ++ right.binds
  | index base indices => base.binds ++ bindsOfItems indices
  | conditional cond yes no => cond.binds ++ yes.binds.filter (no.binds.contains ·)
  | vector items | tuple items => bindsOfItems items
  | matrix rows => bindsOfRows rows
  | record fields => bindsOfFields fields
  | assign target value => value.binds ++ target.boundNames

/-- The names that several expressions leave bound. -/
def bindsOfItems : List Expr → List String
  | [] => []
  | item :: rest => item.binds ++ bindsOfItems rest

/-- The names that the rows of a matrix leave bound. -/
def bindsOfRows : List (List Expr) → List String
  | [] => []
  | row :: rest => bindsOfItems row ++ bindsOfRows rest

/-- The names that the fields of a record leave bound. -/
def bindsOfFields : List (String × Expr) → List String
  | [] => []
  | (_, value) :: rest => value.binds ++ bindsOfFields rest

end

mutual

/-- The names used where they are neither visible from the start nor bound before. -/
def strays (visible : List String) : Expr → List String
  | ident name => if visible.contains name then [] else [name]
  | literal _ | column _ | splat _ | interpolated _ | directed _ _ => []
  | unary _ operand _ => operand.strays visible
  | call _ args _ => straysOfItems visible args
  | binary _ left right _ => left.strays visible ++ right.strays (visible ++ left.binds)
  | index base indices => base.strays visible ++ straysOfItems (visible ++ base.binds) indices
  | conditional cond yes no =>
    cond.strays visible ++ yes.strays (visible ++ cond.binds) ++ no.strays (visible ++ cond.binds)
  | vector items | tuple items | block items => straysOfItems visible items
  | matrix rows => straysOfRows visible rows
  | record fields => straysOfFields visible fields
  | assign _ value => value.strays visible

/-- The strays of several expressions. -/
def straysOfItems (visible : List String) : List Expr → List String
  | [] => []
  | item :: rest => item.strays visible ++ straysOfItems (visible ++ item.binds) rest

/-- The strays of the rows of a matrix. -/
def straysOfRows (visible : List String) : List (List Expr) → List String
  | [] => []
  | row :: rest => straysOfItems visible row ++ straysOfRows (visible ++ bindsOfItems row) rest

/-- The strays of the fields of a record. -/
def straysOfFields (visible : List String) : List (String × Expr) → List String
  | [] => []
  | (_, value) :: rest => value.strays visible ++ straysOfFields (visible ++ value.binds) rest

end

theorem straysOfItems_append (visible : List String) (items rest : List Expr) :
    straysOfItems visible (items ++ rest)
      = straysOfItems visible items ++ straysOfItems (visible ++ bindsOfItems items) rest := by
  induction items generalizing visible with
  | nil => simp [straysOfItems, bindsOfItems]
  | cons item _ ih => simp [straysOfItems, bindsOfItems, ih]

theorem straysOfRows_eq (visible : List String) (rows : List (List Expr)) :
    straysOfRows visible rows = straysOfItems visible rows.flatten := by
  induction rows generalizing visible with
  | nil => rfl
  | cons row _ ih => rw [straysOfRows, ih, List.flatten_cons, straysOfItems_append]

theorem straysOfFields_eq (visible : List String) (fields : List (String × Expr)) :
    straysOfFields visible fields = straysOfItems visible (fields.map Prod.snd) := by
  induction fields generalizing visible with
  | nil => rfl
  | cons field _ ih => rw [straysOfFields, ih, List.map_cons, straysOfItems]

/-- The strays of the parts are looked for one part after another; what is not evaluated has none,
and each branch of a choice is looked at after its condition. -/
theorem strays_eq (visible : List String) (e : Expr) :
    e.strays visible = match e with
      | ident name => if visible.contains name then [] else [name]
      | interpolated _ | directed _ _ => []
      | assign _ value => value.strays visible
      | conditional cond yes no =>
        cond.strays visible ++ yes.strays (visible ++ cond.binds)
          ++ no.strays (visible ++ cond.binds)
      | e => straysOfItems visible e.children := by
  cases e <;> simp [strays, straysOfItems, children, straysOfRows_eq, straysOfFields_eq]

/-- A stray of several expressions is one of them that what is written before does not bind. -/
theorem mem_straysOfItems {items : List Expr} {visible : List String} {n : String}
    (h : n ∈ straysOfItems visible items) :
    ∃ item ∈ items, ∃ more, n ∈ item.strays (visible ++ more) := by
  induction items generalizing visible with
  | nil => cases h
  | cons item rest ih =>
      obtain first | later := List.mem_append.mp h
      · exact ⟨item, List.mem_cons_self, [], by rwa [List.append_nil]⟩
      · obtain ⟨other, inside, more, stray⟩ := ih later
        exact ⟨other, List.mem_cons_of_mem _ inside, item.binds ++ more,
          by rwa [← List.append_assoc]⟩

/-- A stray that is not the expression itself is one of its parts. -/
theorem mem_strays_child {e : Expr} {visible : List String} {n : String}
    (h : n ∈ e.strays visible) (other : ∀ name, e ≠ ident name) :
    ∃ c ∈ e.children, ∃ more, n ∈ c.strays (visible ++ more) := by
  rw [strays_eq] at h
  split at h
  · exact absurd rfl (other _)
  · cases h
  · cases h
  · exact ⟨_, List.mem_cons_of_mem _ List.mem_cons_self, [], by rwa [List.append_nil]⟩
  · rename_i cond yes no
    rw [List.mem_append, List.mem_append] at h
    obtain (first | second) | third := h
    · exact ⟨cond, by simp [children], [], by rwa [List.append_nil]⟩
    · exact ⟨yes, by simp [children], _, second⟩
    · exact ⟨no, by simp [children], _, third⟩
  · exact mem_straysOfItems h

/-- A stray is an identifier of the expression that is not visible. -/
theorem stray_is_ident {e : Expr} {visible : List String} {n : String}
    (h : n ∈ e.strays visible) : n ∉ visible ∧ ident n ∈ e.nodes := by
  induction e using childInduction generalizing visible with
  | step e ih =>
      by_cases named : ∃ name, e = ident name
      · obtain ⟨name, rfl⟩ := named
        by_cases seen : name ∈ visible
        · simp [strays, seen] at h
        · obtain rfl : n = name := by simpa [strays, seen] using h
          exact ⟨seen, self_mem_nodes _⟩
      · obtain ⟨c, child, more, stray⟩ := mem_strays_child h fun name is => named ⟨name, is⟩
        obtain ⟨hidden, inside⟩ := ih c child stray
        exact ⟨fun seen => hidden (List.mem_append_left _ seen), mem_nodes_of_child child inside⟩

end Expr

end TablePlan
