import TablePlan.Expr.Basic

/-!
# Grouping by precedence

A tree of operations has its operands and operators in some order, and it is grouped by precedence
if no parentheses are needed to write it in that order. Operands and operators in any order have
such a tree: each further operator with its operand is pushed below the looser ones.
-/

namespace TablePlan

/-- How loosely an operator holds its operands together. -/
def BinaryOp.looseness : BinaryOp → Nat
  | .pow => 1
  | .mul | .div | .rem => 2
  | .add | .sub => 3
  | .eq | .ne | .lt | .le | .gt | .ge => 4
  | .and => 5
  | .or => 6

theorem BinaryOp.looseness_pos (op : BinaryOp) : 0 < op.looseness := by
  cases op <;> decide

theorem BinaryOp.looseness_le (op : BinaryOp) : op.looseness ≤ 6 := by
  cases op <;> decide

theorem BinaryOp.looseness_eq_one {op : BinaryOp} : op.looseness = 1 ↔ op = .pow := by
  cases op <;> decide

namespace Expr

/-- An expression that is no operation between two operands. -/
def Single (e : Expr) : Prop :=
  ∀ op left right dotted, e ≠ binary op left right dotted

/-- How loosely the parts of an expression hold together. -/
def looseness : Expr → Nat
  | binary op _ _ _ => op.looseness
  | _ => 0

/-- Grouped by precedence: no operand is held together more loosely than by the operator it belongs
to, and one that is as loose as that is the second operand of a power or the first one of any other
operation. -/
inductive Grouped : Expr → Prop
  | single {e : Expr} (alone : e.Single) : Grouped e
  | left {op : BinaryOp} {left right : Expr} {dotted : Bool} (other : op ≠ .pow)
    (first : Grouped left) (second : Grouped right) (same : left.looseness ≤ op.looseness)
    (tighter : right.looseness < op.looseness) : Grouped (binary op left right dotted)
  | right {left right : Expr} {dotted : Bool} (first : Grouped left) (second : Grouped right)
    (tighter : left.looseness < BinaryOp.pow.looseness)
    (same : right.looseness ≤ BinaryOp.pow.looseness) : Grouped (binary .pow left right dotted)

/-- The first operand of an expression and the operators after it, each with its second operand. -/
def inOrder : Expr → Expr × List ((BinaryOp × Bool) × Expr)
  | binary op left right dotted =>
    (left.inOrder.1, left.inOrder.2 ++ ((op, dotted), right.inOrder.1) :: right.inOrder.2)
  | e => (e, [])

variable {e operand : Expr} {op : BinaryOp} {dotted : Bool}

theorem Single.looseness_eq (h : e.Single) : e.looseness = 0 := by
  cases e with
  | binary op left right dotted => exact absurd rfl (h op left right dotted)
  | _ => rfl

theorem Single.inOrder_eq (h : e.Single) : e.inOrder = (e, []) := by
  cases e with
  | binary op left right dotted => exact absurd rfl (h op left right dotted)
  | _ => rfl

theorem looseness_le (e : Expr) : e.looseness ≤ 6 := by
  cases e with
  | binary op left right dotted => exact op.looseness_le
  | _ => exact Nat.zero_le 6

theorem single_of_looseness (h : e.looseness = 0) : e.Single := by
  rintro op left right dotted rfl
  exact absurd h (Nat.ne_of_gt op.looseness_pos)

/-- Add an operator with its second operand behind an expression, below the operators that are looser. -/
def push (e : Expr) (op : BinaryOp) (dotted : Bool) (operand : Expr) : Expr :=
  match e with
  | binary op' left right dotted' =>
    if op.looseness < op'.looseness ∨ op = .pow ∧ op' = .pow then
      binary op' left (right.push op dotted operand) dotted'
    else binary op (binary op' left right dotted') operand dotted
  | e => binary op e operand dotted

theorem Single.push_eq (h : e.Single) : e.push op dotted operand = binary op e operand dotted := by
  cases e with
  | binary op left right dotted => exact absurd rfl (h op left right dotted)
  | _ => rfl

theorem inOrder_push (alone : operand.Single) (e : Expr) :
    (e.push op dotted operand).inOrder = (e.inOrder.1, e.inOrder.2 ++ [((op, dotted), operand)]) := by
  fun_induction push e op dotted operand with
  | case1 op' left right dotted' below ih => simp [inOrder, ih]
  | case2 op' left right dotted' above => simp [inOrder, alone.inOrder_eq]
  | case3 e single =>
      have first : e.inOrder = (e, []) := Single.inOrder_eq single
      simp [inOrder, alone.inOrder_eq, first]

theorem looseness_push (e : Expr) (op : BinaryOp) (dotted : Bool) (operand : Expr) :
    (e.push op dotted operand).looseness ≤ max e.looseness op.looseness := by
  fun_induction push e op dotted operand with
  | case1 => exact Nat.le_max_left _ _
  | case2 => exact Nat.le_max_right _ _
  | case3 => exact Nat.le_max_right _ _

/-- An operation whose second operand is single is grouped unless its first one is looser, or a power
like it. -/
theorem Grouped.above (h : e.Grouped) (alone : operand.Single) (loose : e.looseness ≤ op.looseness)
    (power : op = .pow → e.looseness = 0) : (binary op e operand dotted).Grouped := by
  have tight : operand.looseness = 0 := alone.looseness_eq
  by_cases is : op = .pow
  · subst is
    exact .right h (.single alone) (by rw [power rfl]; decide) (by rw [tight]; decide)
  · exact .left is h (.single alone) loose (by rw [tight]; exact op.looseness_pos)

theorem Grouped.push (h : e.Grouped) (alone : operand.Single) :
    (e.push op dotted operand).Grouped := by
  induction h with
  | single first =>
      rw [first.push_eq]
      have tight := first.looseness_eq
      exact .above (.single first) alone (by omega) fun _ => tight
  | @left op' l r d other first second same tighter _ ih =>
      have bound := looseness_push r op dotted operand
      rw [Expr.push]
      split
      · rename_i below
        have looser : op.looseness < op'.looseness := below.resolve_right fun both => other both.2
        exact .left other first ih same (by omega)
      · rename_i above
        rw [not_or] at above
        have loose : op'.looseness ≤ op.looseness := Nat.not_lt.mp above.1
        refine .above (.left other first second same tighter) alone loose fun is => ?_
        have power : op.looseness = 1 := BinaryOp.looseness_eq_one.mpr is
        have least := op'.looseness_pos
        exact absurd (BinaryOp.looseness_eq_one.mp (by omega)) other
  | @right l r d first second tighter same _ ih =>
      have bound := looseness_push r op dotted operand
      rw [Expr.push]
      split
      · rename_i below
        have least : ¬ op.looseness < BinaryOp.pow.looseness := Nat.not_lt.mpr op.looseness_pos
        obtain rfl : op = .pow := (below.resolve_left least).1
        exact .right first ih tighter (Nat.le_trans bound (Nat.max_le.mpr ⟨same, Nat.le_refl _⟩))
      · rename_i above
        rw [not_or] at above
        exact .above (.right first second tighter same) alone op.looseness_pos fun is =>
          absurd ⟨is, rfl⟩ above.2

example : (binary .sub (ident "a") (ident "b") false).push .pow true (ident "c")
    = binary .sub (ident "a") (binary .pow (ident "b") (ident "c") true) false := rfl

end Expr

end TablePlan
