import TablePlan.Builtin.Collection
import TablePlan.Builtin.Numeric
import TablePlan.Builtin.Reduction
import TablePlan.Builtin.Selector
import TablePlan.Builtin.Textual

/-!
# The standard registry
-/

namespace TablePlan

namespace Builtin

/-- Every standard function in the order of registration. -/
def all : List PureFunction :=
  numeric ++ texts ++ collections ++ reductions ++ selectors

end Builtin

namespace Registry

/-- The version of the standard functions. -/
def standardVersion : String := "0.1.0"

/-- A registry with the standard functions. -/
def standard {σ : Type} (version : String := standardVersion) : Registry σ :=
  Builtin.all.foldl (fun r f => r.register f.toOverload) (empty version)

end Registry

end TablePlan
