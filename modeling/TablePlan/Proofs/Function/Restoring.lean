import TablePlan.Proofs.Function.Reading
import TablePlan.Proofs.Grammar.Results

/-!
# Restoring references

Replacing references enters them into a table from left to right. An entry is never changed or moved,
so the table that is complete at the end already gives every parameter that was used on the way. What
is written has no parameters of its own, so putting the references back gives what they were taken
from.
-/

namespace TablePlan

/-! ### Without repetitions -/

section

variable {α : Type} [BEq α]

open List.eraseDupsBy (loop)

theorem eraseDups_loop_cons (a : α) (rest kept : List α) : loop (· == ·) (a :: rest) kept
    = loop (· == ·) rest (if kept.any (a == ·) then kept else a :: kept) := by
  rw [loop]
  cases kept.any (a == ·) <;> rfl

theorem eraseDups_loop_concat (as kept : List α) (a : α) : loop (· == ·) (as ++ [a]) kept
    = if (loop (· == ·) as kept).any (a == ·) then loop (· == ·) as kept
      else loop (· == ·) as kept ++ [a] := by
  induction as generalizing kept with
  | nil =>
      rw [List.nil_append, eraseDups_loop_cons]
      simp only [loop, List.any_reverse]
      cases kept.any (a == ·) <;> simp
  | cons b rest ih => rw [List.cons_append, eraseDups_loop_cons, eraseDups_loop_cons, ih]

/-- The last element stays if it is like none of those that stay before it. -/
theorem eraseDups_concat_any (seen : List α) (a : α) : (seen ++ [a]).eraseDups
    = if seen.eraseDups.any (a == ·) then seen.eraseDups else seen.eraseDups ++ [a] :=
  eraseDups_loop_concat seen [] a

end

namespace Binding

/-! ### The table -/

/-- The parameter that a table has for a reference. -/
def param? (bindings : List Binding) (r : Reference) : Option String :=
  (bindings.find? fun b => b.reference == r).map param

/-- Entries are numbered, and none is for a reference that another entry is for. -/
structure Table (bindings : List Binding) : Prop where
  sound : Sound Reference.Written bindings
  distinct : (bindings.map reference).Nodup

theorem table_nil : Table [] :=
  ⟨sound_nil _, List.nodup_nil⟩

variable {bindings : List Binding} {r : Reference}

namespace Table

theorem any_iff (table : Table bindings) (own : r.Written) :
    bindings.any (·.reference == r) ↔ r ∈ bindings.map reference := by
  rw [List.any_eq_true, List.mem_map]
  exact exists_congr fun b => and_congr_right fun inside =>
    Reference.beq_iff (table.sound.2 b inside) own

theorem enter (table : Table bindings) (own : r.Written) : Table (enter bindings r) := by
  refine ⟨table.sound.enter own, ?_⟩
  rw [enter_eq]
  split
  · exact table.distinct
  · rename_i new
    rw [table.any_iff own] at new
    rw [List.map_append]
    exact table.distinct.append (List.nodup_singleton r) (List.disjoint_singleton.mpr new)

/-- Every entry is found by its reference. -/
theorem param?_reference (table : Table bindings) {b : Binding} (inside : b ∈ bindings) :
    param? bindings b.reference = some b.param := by
  have own := table.sound.2 b inside
  obtain ⟨found, there⟩ : ∃ found, bindings.find? (·.reference == b.reference) = some found :=
    Option.isSome_iff_exists.mp <| List.find?_isSome.mpr
      ⟨b, inside, (Reference.beq_iff own own).mpr rfl⟩
  have listed := List.mem_of_find?_eq_some there
  have same : found.reference = b.reference :=
    (Reference.beq_iff (table.sound.2 found listed) own).mp (by simpa using List.find?_some there)
  rw [param?, there, Option.map_some, List.inj_on_of_nodup_map table.distinct listed inside same]

/-- Every entry is found by its parameter. -/
theorem find?_param (table : Table bindings) {b : Binding} (inside : b ∈ bindings) :
    bindings.find? (·.param == b.param) = some b := by
  obtain ⟨found, there⟩ : ∃ found, bindings.find? (·.param == b.param) = some found :=
    Option.isSome_iff_exists.mp <| List.find?_isSome.mpr ⟨b, inside, beq_self_eq_true _⟩
  have same : found.param = b.param := by simpa using List.find?_some there
  rw [there, List.inj_on_of_nodup_map table.sound.1.nodup (List.mem_of_find?_eq_some there) inside same]

/-- References share a parameter only if they are one. -/
theorem param?_eq_iff (table : Table bindings) {r s : Reference} (entered : r ∈ bindings.map reference)
    (entered' : s ∈ bindings.map reference) : param? bindings r = param? bindings s ↔ r = s := by
  refine ⟨fun shared => ?_, fun same => same ▸ rfl⟩
  obtain ⟨b, inside, rfl⟩ := List.mem_map.mp entered
  obtain ⟨c, inside', rfl⟩ := List.mem_map.mp entered'
  rw [table.param?_reference inside, table.param?_reference inside', Option.some_inj] at shared
  rw [List.inj_on_of_nodup_map table.sound.1.nodup inside inside' shared]

theorem mem_enter (table : Table bindings) (own : r.Written) {s : Reference}
    (h : s ∈ bindings.map reference ∨ s = r) : s ∈ (Binding.enter bindings r).map reference := by
  rw [enter_eq]
  split
  · rename_i known
    obtain there | rfl := h
    · exact there
    · exact (table.any_iff own).mp known
  · rw [List.map_append]
    exact List.mem_append.mpr (h.imp_right List.mem_singleton.mpr)

/-- Entering references one after another lists them without repetitions. -/
theorem foldl_enter {references : List Reference} (own : ∀ r ∈ references, r.Written) :
    Table (references.foldl Binding.enter [])
      ∧ (references.foldl Binding.enter []).map reference = references.eraseDups := by
  induction references using List.reverseRecOn with
  | nil => exact ⟨table_nil, rfl⟩
  | append_singleton seen r ih =>
      rw [List.forall_mem_append, List.forall_mem_singleton] at own
      obtain ⟨table, listed⟩ := ih own.1
      have like : seen.eraseDups.any (r == ·)
          = (seen.foldl Binding.enter []).any (·.reference == r) := by
        rw [← listed, List.any_map, Bool.eq_iff_iff, List.any_eq_true, List.any_eq_true]
        refine exists_congr fun b => and_congr_right fun inside => ?_
        have known := table.sound.2 b inside
        exact (Reference.beq_iff own.2 known).trans
          (eq_comm.trans (Reference.beq_iff known own.2).symm)
      rw [List.foldl_append, List.foldl_cons, List.foldl_nil, eraseDups_concat_any, like, ← listed]
      refine ⟨table.enter own.2, ?_⟩
      rw [enter_eq]
      split <;> simp

theorem mem_foldl_enter {references : List Reference} (own : ∀ r ∈ references, r.Written) :
    ∀ r ∈ references, r ∈ (references.foldl Binding.enter []).map reference := by
  induction references using List.reverseRecOn with
  | nil => nofun
  | append_singleton seen last ih =>
      rw [List.forall_mem_append, List.forall_mem_singleton] at own
      intro r inside
      rw [List.foldl_append]
      refine (foldl_enter own.1).1.mem_enter own.2 ?_
      exact (List.mem_append.mp inside).imp (ih own.1 r) List.mem_singleton.mp

end Table

end Binding

/-- The expression that a reference is written as. Only names and positions of columns are written. -/
def Reference.toExpr? : Reference → Option Expr
  | static (.name name) => some (.column (.name name))
  | static (.position i) => some (.column (.position i))
  | static _ => none
  | deferred inner => some (.interpolated inner)

namespace Expr

open Binding

/-! ### Parameters and back -/

/-- What stands in place of a reference. -/
def paramAnswer (bindings : List Binding) (e : Expr) : Option Expr :=
  e.reference?.bind fun r => (param? bindings r).map ident

/-- What a parameter stands for. -/
def referenceAnswer (bindings : List Binding) : Expr → Option Expr
  | ident name => (bindings.find? (·.param == name)).bind (·.reference.toExpr?)
  | _ => none

/-- The body with every parameter replaced by its reference. -/
def restore (bindings : List Binding) (body : Expr) : Expr :=
  body.replace (referenceAnswer bindings)

theorem toExpr?_of_reference? {e : Expr} {r : Reference} (h : e.reference? = some r) :
    r.toExpr? = some e := by
  cases e <;> cases h
  case column c => cases c <;> rfl
  case interpolated inner => rfl

/-- With the table that is complete at the end, each reference is replaced by itself. -/
theorem replaceReferences_eq_replace {e : Expr} (plain : e.All Plain) :
    (e.replaceReferences.run []).1
      = e.replace (paramAnswer (e.references.foldl enter [])) := by
  -- The relation speaks of every table that the bindings so far can grow into.
  have adds := replaceReferences_adds (W := Reference.Written) (Q := Plain)
    (R := fun bindings e e' => ∀ final, Table final → bindings <+: final →
      e' = e.replace (paramAnswer final))
    ?grow ?answer ?rebuild plain (sound_nil _)
  case grow =>
    intro e e' bindings more grown h final table later
    exact h final table (grown.trans later)
  case answer =>
    intro e r bindings all reference sound
    have own := written_of_reference? all reference
    refine (bind_adds own sound).mono fun more p sound' => ?_
    rintro ⟨b, inside, rfl, like⟩ final table later
    obtain rfl : b.reference = r := like.elim id (Reference.eq_of_same (sound'.2 b inside) own)
    refine (replace_of_some ?_).symm
    rw [paramAnswer, reference, Option.bind_some, table.param?_reference (later.subset inside)]
    rfl
  case rebuild =>
    intro e cs bindings all unread parts final table later
    have each : cs = e.children.map (replace (paramAnswer final)) := by
      rw [← List.forall₂_eq_eq_eq, List.forall₂_map_right_iff]
      exact parts.flip.imp fun c' c related => related final table later
    rw [replace_of_none (by rw [paramAnswer, unread]; rfl), each, mapParts]
  refine adds.2.2 _ (Table.foldl_enter (written_of_references plain)).1 ?_
  rw [bindings_replaceReferences]

theorem mapParts_mapParts (f g : Expr → Expr) (e : Expr) :
    (e.mapParts f).mapParts g = e.mapParts (g ∘ f) := by
  unfold mapParts
  rw [← mapParts, mapParts_withChildren (by simp), List.map_map]

/-- A name that no entry gives is left alone. -/
theorem referenceAnswer_mapParts {bindings : List Binding} {e : Expr} (plain : e.Plain)
    (numbered : Numbered bindings) (f : Expr → Expr) :
    referenceAnswer bindings (e.mapParts f) = none := by
  rw [mapParts_eq]
  cases e with
  | ident name =>
      have absent : bindings.find? (·.param == name) = none := by
        refine List.find?_eq_none.mpr fun b inside like => ?_
        obtain ⟨number, made⟩ := numbered.exists_of_mem (List.mem_map_of_mem inside)
        exact plain number ((beq_iff_eq.mp like).symm.trans made)
      rw [referenceAnswer, absent, Option.bind_none]
  | _ => rfl

/-- Whatever table has all references of an expression, they can be put back by it. -/
theorem restore_replace {bindings : List Binding} (table : Table bindings) {e : Expr}
    (plain : e.All Plain) (entered : ∀ r ∈ e.references, r ∈ bindings.map reference) :
    restore bindings (e.replace (paramAnswer bindings)) = e := by
  unfold restore
  induction e using childInduction with
  | step e ih =>
      cases reference : e.reference? with
      | some r =>
          rw [references_of_some reference, List.forall_mem_singleton] at entered
          obtain ⟨b, inside, rfl⟩ := List.mem_map.mp entered
          have there : paramAnswer bindings e = some (ident b.param) := by
            rw [paramAnswer, reference, Option.bind_some, table.param?_reference inside]
            rfl
          have back : referenceAnswer bindings (ident b.param) = some e := by
            rw [referenceAnswer, table.find?_param inside, Option.bind_some]
            exact toExpr?_of_reference? reference
          rw [replace_of_some there, replace_of_some back]
      | none =>
          -- Neither way answers for the node itself, so both work on its parts.
          rw [references_of_none reference] at entered
          have kept : paramAnswer bindings e = none := by rw [paramAnswer, reference]; rfl
          have own : e.Plain := (all_iff.mp plain).1
          rw [replace_of_none kept, replace_of_none (referenceAnswer_mapParts own table.sound.1 _),
            mapParts_mapParts]
          refine (mapParts_congr (g := id) fun c child => ?_).trans (mapParts_id e)
          exact ih c child (plain.child child) fun r inside =>
            entered r (List.mem_flatMap.mpr ⟨c, child, inside⟩)

/-- The body has no reference left, and the entries are numbered in the order in which their references
first occur. References have a parameter in common only if they are the same, so that the expression
is restored when they are put back. -/
structure Lossless (e body : Expr) (bindings : List Binding) : Prop where
  unread : body.All fun n => n.isReference = false
  numbered : Numbered bindings
  distinct : (bindings.map reference).Nodup
  ordered : bindings.map reference = e.references.eraseDups
  alike : ∀ r ∈ e.references, ∀ s ∈ e.references, r == s ↔ r = s
  bound : ∀ r ∈ e.references, ∃ p ∈ bindings.map param, param? bindings r = some p
  shared : ∀ r ∈ e.references, ∀ s ∈ e.references, param? bindings r = param? bindings s ↔ r = s
  replaced : body = e.replace (paramAnswer bindings)
  restored : restore bindings body = e

/-- Nothing of an expression is lost when its references are replaced. -/
theorem replaceReferences_lossless {e : Expr} (written : e.Written) :
    Lossless e (e.replaceReferences.run []).1 (e.replaceReferences.run []).2 := by
  have plain : e.All Plain := written.all made_plain
  have own := written_of_references plain
  obtain ⟨table, listed⟩ := Table.foldl_enter own
  have entered := Table.mem_foldl_enter own
  rw [bindings_replaceReferences]
  refine ⟨?_, table.sound.1, table.distinct, listed, fun r inside s inside' => ?_,
    fun r inside => ?_, fun r inside s inside' => ?_, replaceReferences_eq_replace plain, ?_⟩
  · exact all_replaceReferences (Q := fun _ => True) (fun _ => rfl) (fun e cs _ unread => by
      rw [isReference_withChildren, isReference_eq_false unread]) fun _ _ => trivial
  · exact Reference.beq_iff (own r inside) (own s inside')
  · obtain ⟨b, there, rfl⟩ := List.mem_map.mp (entered r inside)
    exact ⟨b.param, List.mem_map_of_mem there, table.param?_reference there⟩
  · exact table.param?_eq_iff (entered r inside) (entered s inside')
  · rw [replaceReferences_eq_replace plain]
    exact restore_replace table plain entered

/-- A column that is read twice around an interpolation. -/
theorem shared_column_lossless :
    let e : Expr := .binary .sub (.binary .add (.column (.name "a")) (.column (.position 2)) false)
      (.call "f" [.interpolated (.column (.name "b")), .column (.name "a")] true) false
    Expr.read ":a + $2 - f.($(:b), :a)" = .ok e
      ∧ (e.replaceReferences.run []).2.map param = ["%col1", "%col2", "%col3"]
      ∧ Lossless e (e.replaceReferences.run []).1 (e.replaceReferences.run []).2 := by
  intro e
  have read : Expr.read ":a + $2 - f.($(:b), :a)" = .ok e := by cbv
  exact ⟨read, rfl, replaceReferences_lossless (.alone read)⟩

end Expr

end TablePlan
