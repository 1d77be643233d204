import TablePlan.Eval.Basic
import TablePlan.Expr.Children

/-!
# References and parameters

Every reference to columns in a body becomes a parameter. References that are written alike share
one, so each column is read once; the parameters are numbered by first occurrence.
-/

namespace TablePlan

/-- What a parameter reads: columns known from the text, or those that an expression specifies
once the scope of the caller is known. -/
inductive Reference where
  | static (spec : ColumnSpec)
  | deferred (inner : Expr)

namespace Reference

/-- Whether two references are written alike. -/
def same : Reference → Reference → Bool
  | static a, static b => a == b
  | deferred a, deferred b => a == b
  | _, _ => false

instance : BEq Reference := ⟨same⟩

end Reference

/-- A parameter with what it reads. -/
structure Binding where
  param : String
  reference : Reference

namespace Binding

/-- The name of a parameter by its number; no name can be written so. -/
def paramName (number : Nat) : String :=
  "%col" ++ toString number

/-- The parameter of a reference: the one it has already, or a new one. -/
def bind (reference : Reference) : StateM (List Binding) String := do
  let bindings ← get
  match bindings.find? fun b => b.reference == reference with
  | some b => return b.param
  | none =>
    let param := paramName (bindings.length + 1)
    set (bindings ++ [⟨param, reference⟩])
    return param

end Binding

namespace Expr

/-- The reference that an expression is, if it is one. -/
def reference? : Expr → Option Reference
  | column c => some (.static c.toSpec)
  | interpolated inner => some (.deferred inner)
  | _ => none

/-- Replace every reference by its parameter, adding to the bindings made before. -/
def replaceReferences (e : Expr) : StateM (List Binding) Expr :=
  e.substitute fun e => e.reference?.map fun r => ident <$> Binding.bind r

end Expr

end TablePlan
