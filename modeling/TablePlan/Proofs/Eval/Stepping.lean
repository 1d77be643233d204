import TablePlan.Proofs.Eval.Broadcast

/-!
# Evaluation step by step

What an expression comes to, from what its parts come to. An operator without dots takes whole
values, one with dots their elements; neither has an effect of its own.
-/

namespace TablePlan

variable {σ : Type}

namespace Eval

variable {registry : Registry σ} {setting : Setting} {m m₁ m₂ : Machine σ}

/-! ### Names and blocks -/

theorem lookup_of_get? {name : String} {v : Value} (found : m.env.get? name = some v) :
    lookup setting name m = (.ok v, m) := by
  unfold lookup
  rw [bind_of_ok (Parallel.run_get m), found]
  rfl

theorem eval_ident_of_get? {name : String} {v : Value} (found : m.env.get? name = some v) :
    eval registry setting (.ident name) m = (.ok v, m) := by
  rw [eval]
  exact lookup_of_get? found

/-- A variable of the caller has a value where no local variable has its name. -/
theorem eval_ident_of_scope {name : String} {scope : Scope} {v : Value}
    (own : m.env.get? name = none) (calls : setting.scope? = some scope)
    (found : scope.get? name = some v) : eval registry setting (.ident name) m = (.ok v, m) := by
  rw [eval]
  unfold lookup
  rw [bind_of_ok (Parallel.run_get m), own]
  simp only [calls, found]
  rfl

theorem eval_block_of_error {statements : List Expr} {e : EvalError}
    (h : evalStatements registry setting .missing statements m = (.error e, m₁)) :
    eval registry setting (.block statements) m = (.error e, m₁) := by
  rw [eval, bind_of_ok (Parallel.run_get m)]
  exact bind_of_error h

theorem eval_block_of_ok {statements : List Expr} {v : Value}
    (h : evalStatements registry setting .missing statements m = (.ok v, m₁)) :
    eval registry setting (.block statements) m
      = (.ok v, ⟨m₁.env.truncate m.env.size, m₁.state⟩) := by
  rw [eval, bind_of_ok (Parallel.run_get m)]
  exact bind_of_ok h

/-! ### Indices -/

/-- An index counts from one, a position from zero. -/
theorem position_of_count {p : Int64} {i length : Nat} (count : p.toInt = i + 1)
    (below : i < length) : position (.int p) length = .ok i := by
  rw [position, if_pos (by omega)]
  exact congrArg _ (by omega)

theorem elementOf_of_count {items : List Value} {p : Int64} {i : Nat} {a : Value}
    (count : p.toInt = i + 1) (there : items[i]? = some a) : elementOf items (.int p) = .ok a := by
  rw [elementOf, position_of_count count (List.getElem?_eq_some_iff.mp there).1]
  dsimp only [bind, Except.bind]
  rw [there]
  rfl

/-- The part of a value at indices that are computed after it. -/
theorem eval_index_of_ok {base : Expr} {indices : List Expr} {v : Value} {vs : List Value}
    (first : eval registry setting base m = (.ok v, m₁))
    (second : evalItems registry setting indices m₁ = (.ok vs, m₂)) :
    eval registry setting (.index base indices) m = (index v vs, m₂) := by
  rw [eval, bind_of_ok first, bind_of_ok second]
  cases index v vs <;> rfl

/-! ### Operators -/

/-- What an operator between two values comes to, applied to them as a whole or element by
element. -/
def operated (op : BinaryOp) (dotted : Bool) (x y : Value) : Except EvalError Value :=
  if dotted then
    broadcast (fun
      | [x, y] => binary op x y
      | args => .error (.arityMismatch 2 args.length)) [x, y]
  else wholeBinary op x y

theorem operated_of_scalars (op : BinaryOp) (dotted : Bool) {x y : Value}
    (first : x.isCollection = false) (second : y.isCollection = false) :
    operated op dotted x y = binary op x y := by
  cases dotted with
  | false => exact wholeBinary_of_scalars op first second
  | true =>
      have scalars : ∀ v ∈ [x, y], v.isCollection = false := by simp [first, second]
      rw [operated, if_pos rfl, broadcast]
      simp only [Value.common?_scalars scalars]

/-- An operator that needs both its operands. -/
theorem eval_binary_of_ok {op : BinaryOp} {left right : Expr} {x y : Value}
    (total : op ≠ .and ∧ op ≠ .or) (first : eval registry setting left m = (.ok x, m₁))
    (second : eval registry setting right m₁ = (.ok y, m₂)) (dotted : Bool) :
    eval registry setting (.binary op left right dotted) m = (operated op dotted x y, m₂) := by
  have step : EvalM.Gives m₂.env (if dotted then
        broadcast (fun
          | [x, y] => liftM (binary op x y)
          | args => throw (.arityMismatch 2 args.length)) [x, y]
      else liftM (wholeBinary op x y) : EvalM σ Value) (operated op dotted x y) := by
    cases dotted with
    | false => exact .lift _
    | true =>
        rw [if_pos rfl, operated, if_pos rfl]
        refine .broadcast (fun args => ?_) [x, y]
        split
        · exact .lift _
        · exact fun _ => rfl
  rw [eval]
  · rw [bind_of_ok first, bind_of_ok second]
    exact step m₂.state
  · exact total.1
  · exact total.2

end Eval

end TablePlan
