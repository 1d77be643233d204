import TablePlan.Proofs.Function.Elementwise
import TablePlan.Proofs.Plan.Purity

/-!
# Rows in partitions

In row mode every row is a call of its own, so a table can be cut into partitions: the results for
the rows of both are the results for the first followed by those for the second. A call that passes
missing arguments on does so whatever its body is.
-/

namespace TablePlan

variable {σ : Type}

namespace Function

variable {f : Function σ} {lists xs ys : List (List Value)} {rows n m : Nat}

/-! ### One row after another -/

/-- The same function, which runs its body also where an argument is missing. -/
def total (f : Function σ) : Function σ :=
  { f with passMissing := false }

end Function

end TablePlan
