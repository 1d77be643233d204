import TablePlan.Argument.Error
import TablePlan.Expr.Printer

/-!
# Collecting assignments

Assignments to columns become assignments to local variables, and a record of all of them is the
result of the block. Other statements stay where they are, so later ones can use what they bind.
-/

namespace TablePlan

/-- A block that ends in a record, with the fields of that record. -/
structure Collected where
  body : Expr
  fields : List String

namespace Collected

/-- The local variable that holds a field until the record is made; no name can be written so. -/
def fieldLocal (name : String) : String :=
  "%t:" ++ name

/-- Something that cannot be collected. -/
def refused (target : Expr) (reason : String) : ArgumentError :=
  .invalidDirectiveTarget "t" target.text reason

/-- Fields collected so far, in the order of their first assignment. -/
abbrev FieldsM := StateT (List String) (Except ArgumentError)

/-- Collect one more field, for which its local variable stands. -/
def addField (name : String) : FieldsM Expr := do
  let fields ← get
  if fields.contains name then throw (.duplicateTarget name)
  set (fields ++ [name])
  return .ident (fieldLocal name)

/-- One target of a destructuring assignment. -/
def tupleItem : Expr → FieldsM Expr
  | .column (.name name) => addField name
  | .ident name => return .ident name
  | .splat name => return .splat name
  | other => throw (refused other "destructuring targets must be :names or locals")

/-- The target of an assignment. -/
def target : Expr → FieldsM Expr
  | .column (.name name) => addField name
  | .tuple items => return .tuple (← items.mapM tupleItem)
  | .ident name => return .ident name
  | other => throw (refused other "collected targets must be column names like :name")

/-- One statement, with the columns it assigns to replaced by local variables. -/
def statement : Expr → FieldsM Expr
  | .assign t value => return .assign (← target t) value
  | other => return other

/-- The statements of a block, or a single assignment. -/
def statementsOf : Expr → Except ArgumentError (List Expr)
  | .block statements => .ok statements
  | e@(.assign _ _) => .ok [e]
  | other => .error (refused other "expected a begin ... end block or an assignment")

/-- Collect the assignments of a body. -/
def ofBody (body : Expr) : Except ArgumentError Collected := do
  let statements ← statementsOf body
  let (statements, fields) ← (statements.mapM statement).run []
  if fields.isEmpty then throw (refused (.block statements) "no column assignments to collect")
  let record := Expr.record (fields.map fun name => (name, .ident (fieldLocal name)))
  return ⟨.block (statements ++ [record]), fields⟩

end Collected

end TablePlan
