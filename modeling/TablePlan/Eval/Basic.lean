import TablePlan.Eval.Element
import TablePlan.Eval.Env
import TablePlan.Eval.Operator
import TablePlan.Expr.Printer

/-!
# Evaluation

One evaluator serves function bodies, interpolations and targets. The setting decides what column
references and unknown names mean: a body has neither, an interpolation computes a specifier from
the scope of the caller, and a target computes column names.
-/

namespace TablePlan

namespace ColumnIdent

/-- The specifier of a named column. -/
def toSpec : ColumnIdent → ColumnSpec
  | name n => .name n
  | position i => .position i

end ColumnIdent

namespace Literal

/-- The value of a constant. -/
def toValue : Literal → Value
  | missing => .missing
  | bool b => .bool b
  | int i => .int i
  | float x => .float x
  | string s => .string s

end Literal

/-- What an expression is evaluated for. -/
inductive Setting where
  /-- A function body, whose references are parameters by now. -/
  | body
  /-- An interpolation that gives a column specifier. -/
  | selector (scope : Scope)
  /-- A target that gives column names. -/
  | sink (scope : Scope) (schema : Schema)

namespace Setting

/-- The variables of the caller, where they can be seen. -/
def scope? : Setting → Option Scope
  | body => none
  | selector scope | sink scope _ => some scope

end Setting

namespace Eval

variable {σ : Type}

/-- The value of a name: a local variable, a variable of the caller, or a type name. -/
def lookup (setting : Setting) (name : String) : EvalM σ Value := do
  let m ← get
  match m.env.get? name with
  | some v => return v
  | none =>
    match setting.scope? with
    | none => throw (.undefinedVariable name)
    | some scope =>
      match scope.get? name with
      | some v => return v
      | none =>
        match TypeFilter.ofTypeName? name with
        | some filter => return .spec (.typeFilter filter)
        | none => throw (.undefinedVariable name)

/-- The value of a column named in the text. -/
def column (setting : Setting) (ident : ColumnIdent) : Except EvalError Value :=
  match setting, ident with
  | .body, ident => .error (.unboundColumnReference ident.text)
  | .selector _, ident => .ok (.spec ident.toSpec)
  | .sink _ _, .name n => .ok (.string n)
  | .sink _ schema, ident => return .string (← (ident.toSpec.resolveSingle schema).mapError .spec)

/-- The names of the columns that a value specifies, in their shape. -/
def columnNames (schema : Schema) (v : Value) : Except EvalError Value := do
  let spec ← v.toSpec.mapError EvalError.spec
  let selection ← (spec.resolve schema).mapError EvalError.spec
  return .ofShape selection.shape (selection.names.map .string)

/-- The elements that a destructuring assignment hands out. -/
def destructured (v : Value) : Except EvalError (List Value) :=
  match v with
  | .string s => .ok (s.toList.map fun c => .string (String.ofList [c]))
  | .list items => .ok items
  | .grid g => .ok g.elements
  | other => .error (.mismatch "destructure" [other])

/-- Whether a target takes all elements that are left. -/
def isSplat : Expr → Bool
  | .splat _ => true
  | _ => false

mutual

/-- Bind a value to a target of local names. -/
def assign : Expr → Value → EvalM σ Unit
  | .ident name, v => EvalM.push name v
  | .tuple items, v => do
    let elements ← destructured v
    let fixed := (items.filter fun item => !isSplat item).length
    if elements.length < fixed then throw (.destructureMismatch fixed elements.length)
    assignItems fixed 0 items elements
  | other, _ => throw (.unsupported ("assignment to " ++ other.text))

/-- Bind elements to targets one by one; elements that no target takes are dropped. -/
def assignItems (fixed position : Nat) : List Expr → List Value → EvalM σ Unit
  | [], _ => return
  | .splat name :: rest, elements =>
    if rest.isEmpty then EvalM.push name (.list elements)
    else throw (.unsupported ("`" ++ name ++ "...` must be the last destructuring target"))
  | _ :: _, [] => throw (.destructureMismatch fixed position)
  | target :: rest, v :: elements => do
    assign target v
    assignItems fixed (position + 1) rest elements

end

mutual

/-- The value of an expression. -/
def eval (registry : Registry σ) (setting : Setting) : Expr → EvalM σ Value
  | .literal value => return value.toValue
  | .ident name => lookup setting name
  | .column ident => column setting ident
  | .interpolated inner =>
    match setting with
    | .body => throw (.unboundColumnReference ("$(" ++ inner.text ++ ")"))
    | .selector scope => eval registry (.selector scope) inner
    | .sink scope schema => do columnNames schema (← eval registry (.selector scope) inner)
  | .call func args dotted => do
    let values ← evalItems registry setting args
    if dotted then broadcast (EvalM.call registry func) values
    else EvalM.call registry func values
  | .binary .and left right _ => do
    if ← condition (← eval registry setting left) then eval registry setting right
    else return .bool false
  | .binary .or left right _ => do
    if ← condition (← eval registry setting left) then return .bool true
    else eval registry setting right
  | .binary op left right dotted => do
    let left ← eval registry setting left
    let right ← eval registry setting right
    if dotted then
      broadcast (fun
        | [x, y] => liftM (binary op x y)
        | args => throw (.arityMismatch 2 args.length)) [left, right]
    else wholeBinary op left right
  | .unary op operand dotted => do
    let v ← eval registry setting operand
    if dotted then
      broadcast (fun
        | [x] => liftM (unary op x)
        | args => throw (.arityMismatch 1 args.length)) [v]
    else wholeUnary op v
  | .index base indices => do
    let base ← eval registry setting base
    let indices ← evalItems registry setting indices
    index base indices
  | .conditional cond yes no => do
    if ← condition (← eval registry setting cond) then eval registry setting yes
    else eval registry setting no
  | .vector items => return .list (← evalItems registry setting items)
  | .tuple items => return .list (← evalItems registry setting items)
  | .matrix rows => do
    match Grid.ofRows? (← evalRows registry setting rows) with
    | some g => return .grid g
    | none => throw (.unsupported "ragged matrix literal")
  | .record fields => return .record (← evalFields registry setting fields)
  | .assign target value => do
    let v ← eval registry setting value
    assign target v
    return v
  | .block statements => do
    let mark := (← get).env.size
    let last ← evalStatements registry setting .missing statements
    modify fun m => { m with env := m.env.truncate mark }
    return last
  | .splat name =>
    throw (.unsupported ("`" ++ name ++ "...` outside a destructuring assignment"))
  | .directed letters _ =>
    throw (.unsupported ("directive @" ++ letters ++ " inside an expression"))

/-- The values of several expressions from left to right. -/
def evalItems (registry : Registry σ) (setting : Setting) : List Expr → EvalM σ (List Value)
  | [] => return []
  | item :: rest => return (← eval registry setting item) :: (← evalItems registry setting rest)

/-- The values of the rows of a matrix from first to last. -/
def evalRows (registry : Registry σ) (setting : Setting) :
    List (List Expr) → EvalM σ (List (List Value))
  | [] => return []
  | row :: rest => return (← evalItems registry setting row) :: (← evalRows registry setting rest)

/-- The values of the fields of a record from first to last. -/
def evalFields (registry : Registry σ) (setting : Setting) :
    List (String × Expr) → EvalM σ (List (String × Value))
  | [] => return []
  | (name, value) :: rest =>
    return (name, ← eval registry setting value) :: (← evalFields registry setting rest)

/-- The value of the last of several statements, or `last` if there are none. -/
def evalStatements (registry : Registry σ) (setting : Setting) (last : Value) :
    List Expr → EvalM σ Value
  | [] => return last
  | statement :: rest => do
    evalStatements registry setting (← eval registry setting statement) rest

end

/-- A constant is its own value in every setting. -/
theorem eval_literal (registry : Registry σ) (setting : Setting) (value : Literal) :
    eval registry setting (.literal value) = return value.toValue := by
  rw [eval]

/-- Evaluate an expression from given variables and a given state of the functions. -/
def run (registry : Registry σ) (setting : Setting) (e : Expr) (env : Env) :
    StateM σ (Except EvalError Value × Env) := fun state =>
  let (result, m) := (eval registry setting e).run ⟨env, state⟩
  ((result, m.env), m.state)

end Eval

end TablePlan
