import TablePlan.Eval.Basic
import TablePlan.Proofs.Stop

/-!
# Errors of operations on values

The operations on values raise errors of one class, that of the data they are applied to. Everything
that an evaluation raises besides is a matter of names, references, directives and functions. Apart
from broadcasting, which compares shapes and counts elements, and from grids with elements that are
not there, the errors are about single operands. An operation on operands breaks off only where a
limit is exceeded.
-/

namespace TablePlan

namespace EvalError

/-- How the evaluator refuses a directive that is left in an expression. -/
def ofDirective (letters : String) : EvalError :=
  .unsupported ("directive @" ++ letters ++ " inside an expression")

/-- An error about the values that an operation is applied to. -/
def OfData (e : EvalError) : Prop :=
  match e with
  | typeMismatch .. | nonBooleanCondition _ | indexOutOfBounds .. | destructureMismatch ..
  | shapeMismatch _ | arithmetic _ | malformedGrid | stopped _ => True
  | unsupported _ => ∀ letters, e ≠ ofDirective letters
  | undefinedVariable _ | registry _ | spec _ | unboundColumnReference _ | arityMismatch .. => False

/-- How the evaluator refuses an index whose element a grid does not have. -/
def gridIndex : EvalError :=
  .unsupported "grid index"

/-- An error about the operands of an operation. -/
def OfOperands (e : EvalError) : Prop :=
  match e with
  | typeMismatch .. | nonBooleanCondition _ | indexOutOfBounds .. | destructureMismatch ..
  | arithmetic _ => True
  | unsupported _ => e ≠ gridIndex ∧ ∀ letters, e ≠ ofDirective letters
  | stopped cause => cause.Exceeded
  | _ => False

theorem OfOperands.ofData {e : EvalError} (h : e.OfOperands) : e.OfData := by
  cases e with
  | unsupported what => exact h.2
  | _ => trivial

theorem ofOperands_unsupported {what : String} (first : what.toList.head? ≠ some 'd')
    (other : what.toList.head? ≠ some 'g') : (unsupported what).OfOperands := by
  constructor
  · rintro ⟨⟩
    exact other rfl
  · rintro letters ⟨⟩
    simp at first

theorem ofData_unsupported {what : String} (first : what.toList.head? ≠ some 'd') :
    (unsupported what).OfData := by
  rintro letters ⟨⟩
  simp at first

end EvalError

namespace Eval

open EvalError

@[simp] theorem ofOperands_mismatch (op : String) (operands : List Value) :
    (mismatch op operands).OfOperands := trivial

theorem ofOperands_of_fitting {i : Int} {e : EvalError} (h : fitting i = .error e) :
    e.OfOperands := by
  simp only [fitting] at h
  split at h <;> cases h
  trivial

theorem ofOperands_of_intArithmetic {op : BinaryOp} {a b : Int64} {e : EvalError}
    (h : intArithmetic op a b = .error e) : e.OfOperands := by
  unfold intArithmetic intPower at h
  split at h
  case h_7 =>
    cases h
    exact ofOperands_unsupported (by simp) (by simp)
  all_goals grind [ofOperands_of_fitting, OfOperands]

theorem ofOperands_of_floatArithmetic {op : BinaryOp} {a b : Float} {e : EvalError}
    (h : floatArithmetic op a b = .error e) : e.OfOperands := by
  unfold floatArithmetic at h
  split at h <;> cases h
  exact ofOperands_unsupported (by simp) (by simp)

theorem ofOperands_of_repeatText {s : String} {count : Int64} {e : EvalError}
    (h : repeatText s count = .error e) : e.OfOperands := by
  simp only [repeatText] at h
  split at h
  · cases h
    trivial
  · split at h
    · cases h
    · split at h <;> cases h
      exact Nat.lt_of_not_le ‹_›

theorem ofOperands_of_arithmetic {op : BinaryOp} {left right : Value} {e : EvalError}
    (h : arithmetic op left right = .error e) : e.OfOperands := by
  unfold arithmetic at h
  split at h
  · cases h
  · exact ofOperands_of_repeatText h
  · exact ofOperands_of_intArithmetic h
  · split at h
    · exact ofOperands_of_floatArithmetic h
    · cases h
      exact ofOperands_mismatch ..

theorem ofOperands_of_binary {op : BinaryOp} {left right : Value} {e : EvalError}
    (h : binary op left right = .error e) : e.OfOperands := by
  unfold binary at h
  grind [ofOperands_of_arithmetic, ofOperands_mismatch]

theorem ofOperands_of_unary {op : UnaryOp} {v : Value} {e : EvalError}
    (h : unary op v = .error e) : e.OfOperands := by
  unfold unary at h
  grind [ofOperands_of_fitting, ofOperands_mismatch]

theorem ofOperands_of_condition {v : Value} {e : EvalError} (h : condition v = .error e) :
    e.OfOperands := by
  unfold condition at h
  grind [OfOperands]

theorem ofOperands_of_wholeBinary {op : BinaryOp} {left right : Value} {e : EvalError}
    (h : wholeBinary op left right = .error e) : e.OfOperands := by
  unfold wholeBinary at h
  grind [ofOperands_of_binary, ofOperands_mismatch]

theorem ofOperands_of_wholeUnary {op : UnaryOp} {v : Value} {e : EvalError}
    (h : wholeUnary op v = .error e) : e.OfOperands := by
  unfold wholeUnary at h
  grind [ofOperands_of_unary, ofOperands_mismatch]

theorem ofOperands_of_position {i : Value} {length : Nat} {e : EvalError}
    (h : position i length = .error e) : e.OfOperands := by
  unfold position at h
  grind [OfOperands, ofOperands_mismatch]

/-- A position lies among the elements. -/
theorem lt_of_position {i : Value} {length place : Nat} (h : position i length = .ok place) :
    place < length := by
  unfold position at h
  split at h
  · split at h <;> cases h
    omega
  · cases h

theorem ofOperands_of_positions {indices : List Value} {shape : Shape} {e : EvalError}
    (h : positions indices shape = .error e) : e.OfOperands := by
  induction indices generalizing shape with
  | nil => cases shape <;> cases h
  | cons i rest ih =>
      cases shape with
      | nil => cases h
      | cons size sizes =>
          obtain first | ⟨place, -, h⟩ := error_of_bind h
          · exact ofOperands_of_position first
          · obtain later | ⟨places, -, h⟩ := error_of_bind h
            · exact ih later
            · cases h

theorem ofOperands_of_elementOf {items : List Value} {i : Value} {e : EvalError}
    (h : elementOf items i = .error e) : e.OfOperands := by
  obtain outside | ⟨place, found, h⟩ := error_of_bind h
  · exact ofOperands_of_position outside
  · rw [List.getElem?_eq_getElem (lt_of_position found)] at h
    cases h

/-- Only a grid can lack an element. -/
theorem ofOperands_of_index {base : Value} {indices : List Value} {e : EvalError}
    (h : index base indices = .error e) :
    e.OfOperands ∨ e = gridIndex ∧ ∃ g place, base = .grid g ∧ indices.length = g.shape.length
      ∧ positions indices g.shape = .ok place ∧ g.get? place = none := by
  unfold index at h
  split at h
  · split at h <;> cases h
    exact .inl (ofOperands_unsupported (by simp) (by simp))
  · exact .inl (ofOperands_of_elementOf h)
  · exact .inl (ofOperands_of_elementOf h)
  · exact .inl (ofOperands_of_elementOf h)
  · rename_i _ g _
    split at h
    · rename_i count
      obtain outside | ⟨place, found, h⟩ := error_of_bind h
      · exact .inl (ofOperands_of_positions outside)
      · split at h <;> cases h
        exact .inr ⟨rfl, g, place, rfl, count, found, ‹_›⟩
    · cases h
      exact .inl (ofOperands_mismatch ..)
  · cases h
    exact .inl (ofOperands_mismatch ..)

theorem ofData_of_index {base : Value} {indices : List Value} {e : EvalError}
    (h : index base indices = .error e) : e.OfData := by
  obtain operands | ⟨rfl, -⟩ := ofOperands_of_index h
  · exact operands.ofData
  · exact ofData_unsupported (by simp)

theorem ofOperands_of_destructured {v : Value} {e : EvalError} (h : destructured v = .error e) :
    e.OfOperands := by
  unfold destructured at h
  grind [ofOperands_mismatch]

end Eval

end TablePlan
