import TablePlan.Eval.Basic
import TablePlan.Proofs.Eval.Operator
import TablePlan.Proofs.Grid

/-!
# Well-formed values

A value is well formed if every grid in it has as many elements as its shape says, at any depth.
Taking well-formed values apart and putting them together gives well-formed values, and where their
shapes are stretched to a common one, every index of it has an element in each of them.
-/

namespace TablePlan

namespace Value

/-- Every grid in the value has as many elements as its shape says. -/
inductive WellFormed : Value → Prop
  | atomic {v : Value} (single : v.Atomic) : WellFormed v
  | spec (s : ColumnSpec) : WellFormed (spec s)
  | list {items : List Value} (each : ∀ v ∈ items, WellFormed v) : WellFormed (list items)
  | grid {g : Grid Value} (whole : g.WellFormed) (each : ∀ v ∈ g.elements, WellFormed v) :
    WellFormed (grid g)
  | record {fields : List (String × Value)} (each : ∀ field ∈ fields, WellFormed field.2) :
    WellFormed (record fields)

namespace WellFormed

variable {v : Value}

theorem of_list {items : List Value} (h : (Value.list items).WellFormed) :
    ∀ v ∈ items, v.WellFormed := by
  cases h with
  | atomic single => exact single.elim
  | list each => exact each

theorem of_grid {g : Grid Value} (h : (Value.grid g).WellFormed) :
    g.WellFormed ∧ ∀ v ∈ g.elements, v.WellFormed := by
  cases h with
  | atomic single => exact single.elim
  | grid whole each => exact ⟨whole, each⟩

theorem of_record {fields : List (String × Value)} (h : (Value.record fields).WellFormed) :
    ∀ field ∈ fields, field.2.WellFormed := by
  cases h with
  | atomic single => exact single.elim
  | record each => exact each

/-- A collection has the elements that its shape asks for. -/
theorem size_shape (h : v.WellFormed) : Shape.size v.shape = v.elements.length := by
  cases v with
  | list items => simp
  | grid g => exact h.of_grid.1
  | _ => rfl

theorem elements (h : v.WellFormed) : ∀ e ∈ v.elements, e.WellFormed := by
  cases v with
  | list items => exact h.of_list
  | grid g => exact h.of_grid.2
  | _ => simpa [Value.elements] using h

/-- As many well-formed values as a shape asks for make a well-formed one of that shape. -/
theorem ofShape {shape : Shape} {items : List Value} (count : Shape.size shape = items.length)
    (each : ∀ v ∈ items, v.WellFormed) : (Value.ofShape shape items).WellFormed := by
  unfold Value.ofShape
  split
  · rw [List.getLastD_eq_getLast?]
    cases last : items.getLast? with
    | none => exact .atomic trivial
    | some v => exact each v (List.mem_of_getLast? last)
  · exact .list each
  · exact .grid count each

/-- At an index of a shape that the shape of the value is stretched to, the value has an element. -/
theorem exists_alignedElement? (h : v.WellFormed) {common : Shape} {index : List Nat}
    (stretches : Shape.Stretches v.shape common) (inside : index ∈ Shape.indices common) :
    ∃ e, Eval.alignedElement? v index = some e ∧ e.WellFormed := by
  unfold Eval.alignedElement?
  split
  · have below := Shape.operandPosition_lt stretches inside
    rw [h.size_shape] at below
    exact ⟨_, List.getElem?_eq_getElem below, h.elements _ (List.getElem_mem below)⟩
  · exact ⟨v, rfl, h⟩

/-- At an index of the common shape of several values, each of them has an element. -/
theorem exists_aligned {args : List Value} (each : ∀ v ∈ args, v.WellFormed) {common : Shape}
    (joined : Shape.common? (args.map shape) = some common) {index : List Nat}
    (inside : index ∈ Shape.indices common) :
    ∃ vs, (args.mapM fun arg => Eval.alignedElement? arg index) = some vs
      ∧ vs.length = args.length ∧ ∀ e ∈ vs, e.WellFormed := by
  have aligned (v : Value) (there : v ∈ args) :=
    (each v there).exists_alignedElement?
      ((Shape.common?_iff.mp joined).1 _ (List.mem_map_of_mem there)) inside
  obtain ⟨vs, found⟩ := exists_mapM_some fun v there => (aligned v there).imp fun _ => And.left
  have same := mapM_some_iff.mp found
  refine ⟨vs, found, same.length_eq.symm, fun e listed => ?_⟩
  obtain ⟨v, there, own⟩ := exists_of_mem_right same listed
  obtain ⟨e', own', whole⟩ := aligned v there
  exact Option.some.inj (own'.symm.trans own) ▸ whole

end WellFormed

end Value

/-! ### Variables -/

namespace Env

/-- Every variable has a well-formed value. -/
def WellFormed (env : Env) : Prop :=
  ∀ v ∈ env.vars, v.2.WellFormed

variable {env : Env}

theorem WellFormed.push (h : env.WellFormed) (name : String) {v : Value} (value : v.WellFormed) :
    (env.push name v).WellFormed :=
  List.forall_mem_cons.mpr ⟨value, h⟩

theorem WellFormed.truncate (h : env.WellFormed) (size : Nat) : (env.truncate size).WellFormed :=
  fun v inside => h v (List.mem_of_mem_drop inside)

theorem wellFormed_of_lookup {vars : List (String × Value)} (each : ∀ v ∈ vars, v.2.WellFormed)
    {name : String} {v : Value} (found : vars.lookup name = some v) : v.WellFormed := by
  obtain ⟨before, after, rfl, -⟩ := List.lookup_eq_some_iff.mp found
  exact each (name, v) (by simp)

theorem WellFormed.get? (h : env.WellFormed) {name : String} {v : Value}
    (found : env.get? name = some v) : v.WellFormed :=
  wellFormed_of_lookup h found

end Env

/-- The variables of the caller have well-formed values. -/
def Setting.WellFormed (setting : Setting) : Prop :=
  ∀ scope ∈ setting.scope?, scope.WellFormed

end TablePlan
