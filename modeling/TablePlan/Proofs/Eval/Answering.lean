import TablePlan.Proofs.Expr.Traversal
import TablePlan.Eval.Basic

/-!
# Evaluation with answers

`evalWith` is the evaluator of function bodies, except that the values of some nodes are given by
an answer for the whole node. Without answers it is the evaluator itself, and every setting of the
evaluator is one way to answer for names and references.
-/

namespace TablePlan

namespace Eval

variable {σ : Type}

/-- Computations that stand for the values of some nodes. -/
abbrev Answers (σ : Type) := Expr → Option (EvalM σ Value)

mutual

/-- The value of an expression, given the values of the nodes that there is an answer for. -/
def evalWith (registry : Registry σ) (answers : Answers σ) (e : Expr) : EvalM σ Value :=
  match answers e with
  | some answer => answer
  | none =>
    match e with
    | .literal value => return value.toValue
    | .ident name => lookup .body name
    | .column ident => column .body ident
    | .interpolated inner => throw (.unboundColumnReference ("$(" ++ inner.text ++ ")"))
    | .call func args dotted => do
      let values ← evalItemsWith registry answers args
      if dotted then broadcast (EvalM.call registry func) values
      else EvalM.call registry func values
    | .binary .and left right _ => do
      if ← condition (← evalWith registry answers left) then evalWith registry answers right
      else return .bool false
    | .binary .or left right _ => do
      if ← condition (← evalWith registry answers left) then return .bool true
      else evalWith registry answers right
    | .binary op left right dotted => do
      let left ← evalWith registry answers left
      let right ← evalWith registry answers right
      if dotted then
        broadcast (fun
          | [x, y] => liftM (binary op x y)
          | args => throw (.arityMismatch 2 args.length)) [left, right]
      else wholeBinary op left right
    | .unary op operand dotted => do
      let v ← evalWith registry answers operand
      if dotted then
        broadcast (fun
          | [x] => liftM (unary op x)
          | args => throw (.arityMismatch 1 args.length)) [v]
      else wholeUnary op v
    | .index base indices => do
      let base ← evalWith registry answers base
      let indices ← evalItemsWith registry answers indices
      index base indices
    | .conditional cond yes no => do
      if ← condition (← evalWith registry answers cond) then evalWith registry answers yes
      else evalWith registry answers no
    | .vector items => return .list (← evalItemsWith registry answers items)
    | .tuple items => return .list (← evalItemsWith registry answers items)
    | .matrix rows => do
      match Grid.ofRows? (← evalRowsWith registry answers rows) with
      | some g => return .grid g
      | none => throw (.unsupported "ragged matrix literal")
    | .record fields => return .record (← evalFieldsWith registry answers fields)
    | .assign target value => do
      let v ← evalWith registry answers value
      assign target v
      return v
    | .block statements => do
      let mark := (← get).env.size
      let last ← evalStatementsWith registry answers .missing statements
      modify fun m => { m with env := m.env.truncate mark }
      return last
    | .splat name =>
      throw (.unsupported ("`" ++ name ++ "...` outside a destructuring assignment"))
    | .directed letters _ =>
      throw (.unsupported ("directive @" ++ letters ++ " inside an expression"))

/-- The values of several expressions from left to right. -/
def evalItemsWith (registry : Registry σ) (answers : Answers σ) : List Expr → EvalM σ (List Value)
  | [] => return []
  | item :: rest =>
    return (← evalWith registry answers item) :: (← evalItemsWith registry answers rest)

/-- The values of the rows of a matrix from first to last. -/
def evalRowsWith (registry : Registry σ) (answers : Answers σ) :
    List (List Expr) → EvalM σ (List (List Value))
  | [] => return []
  | row :: rest =>
    return (← evalItemsWith registry answers row) :: (← evalRowsWith registry answers rest)

/-- The values of the fields of a record from first to last. -/
def evalFieldsWith (registry : Registry σ) (answers : Answers σ) :
    List (String × Expr) → EvalM σ (List (String × Value))
  | [] => return []
  | (name, value) :: rest =>
    return (name, ← evalWith registry answers value) :: (← evalFieldsWith registry answers rest)

/-- The value of the last of several statements, or `last` if there are none. -/
def evalStatementsWith (registry : Registry σ) (answers : Answers σ) (last : Value) :
    List Expr → EvalM σ Value
  | [] => return last
  | statement :: rest => do
    evalStatementsWith registry answers (← evalWith registry answers statement) rest

end

variable {registry : Registry σ} {answers : Answers σ}

theorem evalWith_of_some {e : Expr} {answer : EvalM σ Value} (h : answers e = some answer) :
    evalWith registry answers e = answer := by
  rw [evalWith.eq_def, h]

theorem evalItemsWith_eq (items : List Expr) :
    evalItemsWith registry answers items = items.mapM (evalWith registry answers) := by
  induction items with
  | nil => rfl
  | cons item rest ih => rw [evalItemsWith, List.mapM_cons, ih]

/-! ### The settings as answers -/

/-- The answers of a setting for names and references; function bodies have none. -/
def settled (registry : Registry σ) : Setting → Answers σ
  | .body, _ => none
  | setting, e@(.ident _) | setting, e@(.column _) | setting, e@(.interpolated _) =>
    some (eval registry setting e)
  | _, _ => none

section

variable {setting : Setting}

theorem evalItems_settled {items : List Expr} (each : ∀ item ∈ items,
      eval registry setting item = evalWith registry (settled registry setting) item) :
    evalItems registry setting items
      = evalItemsWith registry (settled registry setting) items := by
  induction items with
  | nil => rfl
  | cons item rest ih =>
      rw [evalItems, evalItemsWith, each item (by simp), ih fun c inside => each c (by simp [inside])]

theorem evalRows_settled {rows : List (List Expr)} (each : ∀ item ∈ rows.flatten,
      eval registry setting item = evalWith registry (settled registry setting) item) :
    evalRows registry setting rows = evalRowsWith registry (settled registry setting) rows := by
  induction rows with
  | nil => rfl
  | cons row rest ih =>
      rw [List.flatten_cons] at each
      rw [evalRows, evalRowsWith, evalItems_settled fun c inside => each c (by simp [inside]),
        ih fun c inside => each c (List.mem_append_right _ inside)]

theorem evalFields_settled {fields : List (String × Expr)} (each : ∀ item ∈ fields.map Prod.snd,
      eval registry setting item = evalWith registry (settled registry setting) item) :
    evalFields registry setting fields
      = evalFieldsWith registry (settled registry setting) fields := by
  induction fields with
  | nil => rfl
  | cons field rest ih =>
      rw [List.map_cons] at each
      rw [evalFields, evalFieldsWith, each field.2 List.mem_cons_self,
        ih fun c inside => each c (List.mem_cons_of_mem _ inside)]

theorem evalStatements_settled {items : List Expr} (last : Value) (each : ∀ item ∈ items,
      eval registry setting item = evalWith registry (settled registry setting) item) :
    evalStatements registry setting last items
      = evalStatementsWith registry (settled registry setting) last items := by
  induction items generalizing last with
  | nil => rfl
  | cons item rest ih =>
      rw [evalStatements, evalStatementsWith, each item (by simp)]
      exact bind_congr fun v => ih v fun c inside => each c (by simp [inside])

end

/-- The evaluator is evaluation with the answers of its setting. -/
theorem eval_eq_evalWith (setting : Setting) (e : Expr) :
    eval registry setting e = evalWith registry (settled registry setting) e := by
  induction e using Expr.childInduction with
  | step e ih =>
      cases answered : settled registry setting e with
      | some answer =>
          rw [evalWith_of_some answered]
          cases setting <;> cases e <;> cases answered <;> rfl
      | none =>
          rw [evalWith.eq_def, answered]
          cases e with
          | literal value => rfl
          | ident name => cases setting <;> first | rfl | cases answered
          | column c => cases setting <;> first | rfl | cases answered
          | interpolated inner => cases setting <;> first | rfl | cases answered
          | call func args dotted =>
              have values := evalItems_settled (show ∀ c ∈ args, _ from ih)
              simp only [eval, values]
          | binary op left right dotted =>
              have first := ih left (by simp [Expr.children])
              have second := ih right (by simp [Expr.children])
              cases op <;> (dsimp only; rw [← first, ← second]; rfl)
          | unary op operand dotted =>
              have value := ih operand (by simp [Expr.children])
              exact congrArg (· >>= _) value
          | index base indices =>
              have later := evalItems_settled fun c inside => ih c (List.mem_cons_of_mem base inside)
              simp only [eval, ih base (by simp [Expr.children]), later]
          | conditional cond yes no =>
              simp only [eval, ih cond (by simp [Expr.children]), ih yes (by simp [Expr.children]),
                ih no (by simp [Expr.children])]
          | vector items =>
              have values := evalItems_settled (show ∀ c ∈ items, _ from ih)
              simp only [eval, values]
          | tuple items =>
              have values := evalItems_settled (show ∀ c ∈ items, _ from ih)
              simp only [eval, values]
          | matrix rows =>
              have values := evalRows_settled (show ∀ c ∈ rows.flatten, _ from ih)
              exact congrArg (· >>= _) values
          | record fields =>
              have values := evalFields_settled (show ∀ c ∈ fields.map Prod.snd, _ from ih)
              simp only [eval, values]
          | assign target value => simp only [eval, ih value (by simp [Expr.children])]
          | block statements =>
              have last := evalStatements_settled .missing (show ∀ c ∈ statements, _ from ih)
              simp only [eval, last]
          | splat name => rfl
          | directed letters inner => rfl

end Eval

end TablePlan
