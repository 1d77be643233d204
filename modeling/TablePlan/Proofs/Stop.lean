import TablePlan.Builtin.Standard
import TablePlan.Eval.Operator
import TablePlan.Proofs.Effects
import TablePlan.Proofs.Shape.Counting

/-!
# Stops at limits

A computation breaks off only where a limit of the machine is exceeded, and the stop tells by what:
a shape with more elements than a word counts, a text longer than texts can be, an integer without an
absolute value, or floats without an order.
-/

namespace TablePlan

namespace Stop

/-- The limit that a computation broke off for is exceeded. -/
def Exceeded : Stop → Prop
  | sizes shape => ¬ shape.Fits
  | length bytes times => maxBytes < bytes * times
  | magnitude i => Int64.maxValue.toInt < i.toInt.natAbs
  | order xs => (∃ x ∈ xs, x.isNaN) ∧ ∃ a ∈ xs, ∃ b ∈ xs, a < b

end Stop

/-! ### Specifiers -/

namespace SpecError

/-- No stop, or one for a limit that is exceeded. -/
def Justified (e : SpecError) : Prop :=
  ∀ cause ∈ e.stop?, cause.Exceeded

theorem justified_of_plain {e : SpecError} (plain : e.stop? = none) : e.Justified := by
  simp [Justified, plain]

end SpecError

namespace Value

mutual

theorem justified_of_toSpec {v : Value} {e : SpecError} (h : v.toSpec = .error e) :
    e.Justified := by
  cases v with
  | list items =>
      rw [toSpec] at h
      obtain failed | ⟨specs, -, h⟩ := error_of_bind h
      · exact justified_of_itemsToSpecs failed
      · cases h
  | grid g =>
      rw [toSpec] at h
      obtain failed | ⟨specs, -, h⟩ := error_of_bind h
      · exact justified_of_itemsToSpecs failed
      · cases h
  | _ =>
      cases h <;> exact SpecError.justified_of_plain rfl

theorem justified_of_itemsToSpecs {items : List Value} {e : SpecError}
    (h : itemsToSpecs items = .error e) : e.Justified := by
  cases items with
  | nil => cases h
  | cons item rest =>
      rw [itemsToSpecs] at h
      obtain failed | ⟨spec, -, h⟩ := error_of_bind h
      · exact justified_of_toSpec failed
      · obtain failed | ⟨specs, -, h⟩ := error_of_bind h
        · exact justified_of_itemsToSpecs failed
        · cases h

end

end Value

namespace ColumnSpec

variable {schema : Schema} {e : SpecError}

theorem justified_of_resolveSingle {spec : ColumnSpec}
    (h : spec.resolveSingle schema = .error e) : e.Justified := by
  refine SpecError.justified_of_plain ?_
  unfold resolveSingle at h
  grind [SpecError.stop?]

theorem justified_of_resolveIndex {spec : ColumnSpec}
    (h : spec.resolveIndex schema = .error e) : e.Justified := by
  obtain single | ⟨name, -, h⟩ := error_of_bind h
  · exact justified_of_resolveSingle single
  · split at h <;> cases h
    exact SpecError.justified_of_plain rfl

/-- Resolving a specifier breaks off only for a grid with too many elements. -/
theorem justified_of_resolve {spec : ColumnSpec} (h : spec.resolve schema = .error e) :
    e.Justified := by
  have each {items : List ColumnSpec} (failed : items.mapM (resolveSingle schema) = .error e) :
      e.Justified := by
    obtain ⟨item, -, single⟩ := exists_error_of_mapM failed
    exact justified_of_resolveSingle single
  fun_induction resolve schema spec with
  | case1 items =>
      obtain first | ⟨names, -, h⟩ := error_of_bind h
      · exact each first
      · cases h
  | case2 g uncounted =>
      cases h
      rintro cause ⟨⟩
      exact Shape.count?_eq_none_iff.mp uncounted
  | case3 g count counted differs =>
      cases h
      exact SpecError.justified_of_plain rfl
  | case4 g count counted same =>
      obtain first | ⟨names, -, h⟩ := error_of_bind h
      · exact each first
      · cases h
  | case5 | case7 | case8 => cases h
  | case6 first last =>
      obtain failed | ⟨start, -, h⟩ := error_of_bind h
      · exact justified_of_resolveIndex failed
      · obtain failed | ⟨stop, -, h⟩ := error_of_bind h
        · exact justified_of_resolveIndex failed
        · cases h
  | case9 inner ih =>
      obtain failed | ⟨excluded, -, h⟩ := error_of_bind h
      · exact ih failed
      · cases h
  | case10 single =>
      obtain failed | ⟨name, -, h⟩ := error_of_bind h
      · exact justified_of_resolveSingle failed
      · cases h

end ColumnSpec

/-! ### Functions -/

namespace FunctionError

/-- The function has found all its arguments, and it has broken off only for a limit that is
exceeded. -/
structure Justified (e : FunctionError) : Prop where
  supplied : ∀ count, e ≠ .argumentCount count
  exceeded : ∀ cause ∈ e.stop?, cause.Exceeded

@[simp] theorem justified_mismatch (expected : String) (v : Value) : (mismatch expected v).Justified :=
  ⟨nofun, nofun⟩

@[simp] theorem justified_domain (reason : String) : (domain reason).Justified :=
  ⟨nofun, nofun⟩

end FunctionError

namespace Builtin

theorem exceeded_of_least {i : Int64} (least : i = Int64.minValue) :
    (Stop.magnitude i).Exceeded := by
  subst least
  change Int64.maxValue.toInt < Int64.minValue.toInt.natAbs
  decide

theorem exceeded_of_disordered {xs : List Float} (h : disordered xs = true) :
    (Stop.order xs).Exceeded := by
  simpa [disordered, Stop.Exceeded] using h

end Builtin

end TablePlan
