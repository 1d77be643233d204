import TablePlan.Grammar.Lexeme

/-!
# Reading expressions

Expressions nest through four readers: of an expression, of an operand with the operators before
it, of an element of a matrix, and of an argument that begins with a directive. `nested` ties them
together to a given depth. Everything that nests takes a character first, so the length of a text
bounds its depth.

Operators group by precedence: `||`, `&&`, comparisons, sums, products, powers and last the
operators before an operand; powers group to the right and all others to the left.
-/

namespace TablePlan.Grammar

open Reader

/-- The readers that expressions nest through. -/
structure Nested where
  expr : Reader Expr
  operand : Reader Expr
  element : Reader Expr
  directed : Reader Expr

/-- One or more items between commas. -/
def commaItems {α : Type} (item : Reader α) : Reader (List α) := do
  let first ← item
  let rest ← many do
    sign ","
    item
  return first :: rest

/-- An equals sign that is not the first of two. -/
def equals : Reader Unit := do
  sign "="
  notAhead (sign "=")

/-- The integer that digits stand for, if it is in range. -/
def integer (digits : List Char) : Reader Int64 := do
  let n := Decimal.natOfDigits digits
  if n ≤ Int64.maxValue.toInt.toNat then return Int64.ofInt n
  else
    report (.integerOutOfRange (String.ofList digits))
    return 0

/-- A truth value or the missing value. -/
def literalWord? (cs : List Char) : Option (Literal × List Char) := do
  let (word, rest) ← word? cs
  match word with
  | "true" => some (.bool true, rest)
  | "false" => some (.bool false, rest)
  | "missing" | "nothing" => some (.missing, rest)
  | _ => none

/-- A constant. -/
def literal : Reader Literal :=
  (Literal.float <$> token float?)
    <|> (Literal.int <$> (token digits? >>= integer))
    <|> (Literal.string <$> token quoted?)
    <|> (Literal.string <$> token character?)
    <|> token literalWord?

/-- An expression in parentheses. -/
def parenthesized (inner : Nested) : Reader Expr := do
  sign "("
  let e ← inner.expr
  sign ")"
  return e

/-- A list of items in brackets; a comma may follow the last one. -/
def vector (inner : Nested) : Reader Expr := do
  sign "["
  let items ← optional do
    let items ← commaItems inner.expr
    let _ ← optional (sign ",")
    return items
  sign "]"
  return .vector (items.getD [])

/-- Indices in brackets. -/
def indices (inner : Nested) : Reader (List Expr) := do
  sign "["
  let items ← commaItems inner.expr
  sign "]"
  return items

/-- A call of a named function, element by element if there is a dot after the name. -/
def call (inner : Nested) : Reader Expr := do
  let func ← token name?
  let dot ← optional (sign ".")
  sign "("
  let args ← optional (commaItems inner.expr)
  sign ")"
  return .call func (args.getD []) dot.isSome

/-- A value to assign: an expression, or one that begins with a directive. -/
def assigned (inner : Nested) : Reader Expr :=
  inner.directed <|> inner.expr

/-- An assignment to one target. -/
def assignment (inner : Nested) : Reader Expr := do
  let target ← inner.expr
  equals
  let value ← assigned inner
  return .assign target value

/-- One target of an assignment to several. -/
def tupleItem (inner : Nested) : Reader Expr :=
  (Expr.splat <$> token splat?) <|> inner.expr

/-- An assignment to two or more targets. -/
def tupleAssignment (inner : Nested) : Reader Expr := do
  let first ← tupleItem inner
  let rest ← many1 do
    sign ","
    tupleItem inner
  equals
  let value ← assigned inner
  return .assign (.tuple (first :: rest)) value

/-- What can stand after a directive or as a statement. -/
def statement (inner : Nested) : Reader Expr :=
  inner.directed <|> tupleAssignment inner <|> assignment inner <|> inner.expr

/-- Statements from `begin` to `end`; a semicolon may follow each of them. -/
def block (inner : Nested) : Reader Expr := do
  sign "begin"
  let statements ← many do
    let e ← statement inner
    let _ ← optional (sign ";")
    return e
  sign "end"
  return .block statements

/-- The rows of a matrix in brackets, read by `element`; all rows have to be equally long. -/
def matrix (inner : Nested) : Reader Expr := do
  sign "["
  let first ← many1 inner.element
  let rest ← many do
    sign ";"
    many1 inner.element
  sign "]"
  if !rest.all fun row => row.length == first.length then report .unevenRows
  return .matrix (first :: rest)

/-- Columns computed from the scope of the caller, or given by position or quoted name. -/
def interpolation (inner : Nested) : Reader Expr := do
  sign "$"
  (Expr.interpolated <$> parenthesized inner)
    <|> (Expr.interpolated <$> vector inner)
    <|> (Expr.interpolated <$> matrix inner)
    <|> ((fun i => Expr.column (.position i)) <$> (token digits? >>= integer))
    <|> ((fun s => Expr.column (.name s)) <$> token quoted?)
    <|> ((fun s => Expr.interpolated (.ident s)) <$> token name?)

/-- An operand with its directive, which has no place there but is recognized all the same. -/
def directedOperand (inner : Nested) : Reader Expr := do
  let letters ← token directive?
  let e ← inner.operand
  return .directed letters e

/-- An operand without operators and indices. -/
def primary (inner : Nested) : Reader Expr :=
  directedOperand inner
    <|> block inner
    <|> call inner
    <|> interpolation inner
    <|> ((fun s => Expr.column (.name s)) <$> token columnName?)
    <|> (Expr.literal <$> literal)
    <|> vector inner
    <|> matrix inner
    <|> parenthesized inner
    <|> (Expr.ident <$> token name?)

/-- An operand with the indices after it. -/
def indexed (inner : Nested) : Reader Expr := do
  let base ← primary inner
  let applied ← many (indices inner)
  return applied.foldl .index base

/-- Operators before an operand. -/
def unarySymbols : List (String × UnaryOp) := [("-", .neg), ("!", .not)]

/-- The operators of one level of precedence as they are written. -/
def symbolsOf (ops : List BinaryOp) : List (String × BinaryOp) :=
  ops.map fun op => (op.symbol, op)

/-- An operand with the operators before it. -/
def operand (inner : Nested) : Reader Expr := do
  let ops ← many (token (operator? true unarySymbols))
  let e ← indexed inner
  return ops.foldr (fun (op, dotted) e => .unary op e dotted) e

/-- Operands with the operators of one level between them. -/
def chain (dots : Bool) (ops : List BinaryOp) (item : Reader Expr) :
    Reader (Expr × List ((BinaryOp × Bool) × Expr)) := do
  let first ← item
  let rest ← many do
    let op ← token (operator? dots (symbolsOf ops))
    let e ← item
    return (op, e)
  return (first, rest)

/-- A chain grouped from the left. -/
def groupLeft (first : Expr) (rest : List ((BinaryOp × Bool) × Expr)) : Expr :=
  rest.foldl (fun left ((op, dotted), right) => .binary op left right dotted) first

/-- A chain grouped from the right. -/
def groupRight (first : Expr) : List ((BinaryOp × Bool) × Expr) → Expr
  | [] => first
  | ((op, dotted), next) :: rest => .binary op first (groupRight next rest) dotted

/-- Powers. -/
def power (inner : Nested) : Reader Expr := do
  let (first, rest) ← chain true [.pow] (operand inner)
  return groupRight first rest

/-- A level of operators that group from the left. -/
def leftLevel (dots : Bool) (ops : List BinaryOp) (item : Reader Expr) : Reader Expr := do
  let (first, rest) ← chain dots ops item
  return groupLeft first rest

/-- Products. -/
def product (inner : Nested) : Reader Expr :=
  leftLevel true [.mul, .div, .rem] (power inner)

/-- Sums. -/
def sum (inner : Nested) : Reader Expr :=
  leftLevel true [.add, .sub] (product inner)

/-- Comparisons. -/
def comparison (inner : Nested) : Reader Expr :=
  leftLevel true [.eq, .ne, .le, .ge, .lt, .gt] (sum inner)

/-- Conjunctions. -/
def conjunction (inner : Nested) : Reader Expr :=
  leftLevel false [.and] (comparison inner)

/-- Disjunctions. -/
def disjunction (inner : Nested) : Reader Expr :=
  leftLevel false [.or] (conjunction inner)

/-- An expression: a disjunction, or a choice that one decides. -/
def expression (inner : Nested) : Reader Expr := do
  let cond ← disjunction inner
  let branches ← optional do
    sign "?"
    let yes ← inner.expr
    sign ":"
    let no ← inner.expr
    return (yes, no)
  match branches with
  | some (yes, no) => return .conditional cond yes no
  | none => return cond

/-- An argument that begins with a directive. -/
def directed (inner : Nested) : Reader Expr := do
  let letters ← token directive?
  let e ← statement inner
  return .directed letters e

/-- The readers for expressions that nest less deeply than a bound. -/
def nested : Nat → Nested
  | 0 => ⟨failure, failure, failure, failure⟩
  | depth + 1 =>
    let inner := nested depth
    ⟨expression inner, operand inner, indexed inner, directed inner⟩

end TablePlan.Grammar
