import TablePlan.Eval.Operator

/-!
# Results of operators

An operator between scalars gives a number, a text, a truth value or the missing value. Between
scalars it makes no difference whether an operator is applied to whole values or to elements.
-/

namespace TablePlan

namespace Value

/-- The missing value, a truth value, a number or a text. -/
def Atomic : Value → Prop
  | missing | bool _ | int _ | float _ | string _ => True
  | _ => False

theorem Atomic.scalar {v : Value} (h : v.Atomic) : v.isCollection = false := by
  cases v <;> first | rfl | exact h.elim

end Value

namespace Eval

theorem atomic_of_fitting {i : Int} {v : Value} (h : fitting i = .ok v) : v.Atomic := by
  unfold fitting at h
  split at h <;> cases h
  trivial

theorem atomic_of_intPower {base : Int} {exponent : Nat} {v : Value}
    (h : intPower base exponent = .ok v) : v.Atomic := by
  unfold intPower at h
  split at h
  · exact atomic_of_fitting h
  · split at h
    · cases h
    · exact atomic_of_fitting h

theorem atomic_of_intArithmetic {op : BinaryOp} {a b : Int64} {v : Value}
    (h : intArithmetic op a b = .ok v) : v.Atomic := by
  cases op with
  | add | sub | mul => exact atomic_of_fitting h
  | div =>
      cases h
      trivial
  | rem =>
      simp only [intArithmetic] at h
      split at h
      · cases h
      · split at h <;> cases h
        trivial
  | pow =>
      simp only [intArithmetic] at h
      split at h
      · exact atomic_of_intPower h
      · cases h
        trivial
  | _ => cases h

theorem atomic_of_floatArithmetic {op : BinaryOp} {a b : Float} {v : Value}
    (h : floatArithmetic op a b = .ok v) : v.Atomic := by
  cases op <;> cases h <;> trivial

theorem atomic_of_repeatText {s : String} {count : Int64} {v : Value}
    (h : repeatText s count = .ok v) : v.Atomic := by
  simp only [repeatText] at h
  split at h
  · cases h
  · split at h
    · cases h
      trivial
    · split at h <;> cases h
      trivial

theorem atomic_of_arithmetic {op : BinaryOp} {left right v : Value}
    (h : arithmetic op left right = .ok v) : v.Atomic := by
  unfold arithmetic at h
  split at h
  · cases h
    trivial
  · exact atomic_of_repeatText h
  · exact atomic_of_intArithmetic h
  · split at h
    · exact atomic_of_floatArithmetic h
    · cases h

theorem atomic_of_binary {op : BinaryOp} {left right v : Value} (h : binary op left right = .ok v) :
    v.Atomic := by
  unfold binary at h
  split at h
  · cases h
    trivial
  · cases op with
    | eq | ne =>
        cases h
        trivial
    | lt | le | gt | ge =>
        dsimp only at h
        split at h <;> cases h
        trivial
    | _ => exact atomic_of_arithmetic h

theorem atomic_of_unary {op : UnaryOp} {x v : Value} (h : unary op x = .ok v) : v.Atomic := by
  unfold unary at h
  split at h
  · cases h
    trivial
  · exact atomic_of_fitting h
  · cases h
    trivial
  · cases h
    trivial
  · cases h

/-! ### Scalars as whole values -/

/-- Equality with a scalar depends on a missing value exactly if one of the two is missing. -/
theorem equal?_eq_none_iff {left right : Value} (single : left.isCollection = false) :
    left.equal? right = none ↔ (left.isMissing || right.isMissing) = true := by
  cases left with
  | list | grid => cases single
  | _ =>
      cases right <;> simp only [Value.equal?, Value.isMissing, Bool.or_false, Bool.or_true,
        Bool.false_eq_true]
      all_goals split <;> simp

theorem wholeBinary_of_scalars (op : BinaryOp) {left right : Value}
    (first : left.isCollection = false) (second : right.isCollection = false) :
    wholeBinary op left right = binary op left right := by
  have equality (op : BinaryOp) (is : op = .eq ∨ op = .ne) :
      wholeBinary op left right = binary op left right := by
    have missing : left.equal? right = none ↔ (left.isMissing || right.isMissing) = true :=
      equal?_eq_none_iff first
    cases known : left.equal? right with
    | none =>
        obtain rfl | rfl := is <;> simp only [wholeBinary, binary, known, if_pos (missing.mp known)]
    | some equal =>
        have present : ¬ (left.isMissing || right.isMissing) = true := by simp [← missing, known]
        obtain rfl | rfl := is <;> simp only [wholeBinary, binary, known, if_neg present] <;>
          cases equal <;> rfl
  cases op with
  | eq => exact equality .eq (.inl rfl)
  | ne => exact equality .ne (.inr rfl)
  | _ => exact if_neg (by rw [first, second]; decide)

theorem wholeUnary_of_scalar (op : UnaryOp) {v : Value} (single : v.isCollection = false) :
    wholeUnary op v = unary op v := by
  rw [wholeUnary, if_neg (by rw [single]; decide)]

/-- Operators on whole values give scalars of the same kinds. -/
theorem atomic_of_wholeBinary {op : BinaryOp} {left right v : Value}
    (h : wholeBinary op left right = .ok v) : v.Atomic := by
  unfold wholeBinary at h
  split at h
  · split at h <;> cases h <;> trivial
  · split at h <;> cases h <;> trivial
  · split at h
    · cases h
    · exact atomic_of_binary h

theorem atomic_of_wholeUnary {op : UnaryOp} {x v : Value} (h : wholeUnary op x = .ok v) :
    v.Atomic := by
  unfold wholeUnary at h
  split at h
  · cases h
  · exact atomic_of_unary h

end Eval

end TablePlan
