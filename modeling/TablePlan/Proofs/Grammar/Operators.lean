import TablePlan.Proofs.Grammar.Reading

/-!
# Reading operators

What the readers of operators and indices do, from what the reader of a primary operand does. The
operators between operands come in levels, from the tightest to the loosest; a level that finds
none of its operators passes on what the level below it reads.
-/

namespace TablePlan.Grammar

open Reader

variable {inner : Nested} {cs mid rest : List Char} {e left right : Expr}

/-! ### Indices -/

/-- A primary operand with the indices after it; more indices may follow. -/
def ReadsApplied (inner : Nested) (cs : List Char) (e : Expr) (rest : List Char) : Prop :=
  ∃ base mid applied, (primary inner).Reads cs base mid ∧ Chain (indices inner) mid applied rest
    ∧ applied.foldl .index base = e

theorem ReadsApplied.primary (h : (primary inner).Reads cs e rest) : ReadsApplied inner cs e rest :=
  ⟨e, rest, [], h, .nil rest, rfl⟩

theorem ReadsApplied.index {items : List Expr} (h : ReadsApplied inner cs e mid)
    (more : (indices inner).Reads mid items rest) (takes : rest.length < mid.length) :
    ReadsApplied inner cs (.index e items) rest := by
  obtain ⟨base, start, applied, first, chain, rfl⟩ := h
  exact ⟨base, start, applied ++ [items], first, chain.append (.cons more takes (.nil rest)),
    by rw [List.foldl_append]; rfl⟩

theorem ReadsApplied.indexed (h : ReadsApplied inner cs e rest) (stop : (sign "[").Refuses rest) :
    (indexed inner).Reads cs e rest := by
  obtain ⟨base, mid, applied, first, chain, rfl⟩ := h
  exact first.bind ((chain.many stop.bind).to rfl)

theorem refuses_indexed (h : (primary inner).Refuses cs) : (indexed inner).Refuses cs :=
  h.bind

/-! ### Operators before an operand -/

/-- An operator before an operand. -/
def unaryOperator : Reader (UnaryOp × Bool) :=
  token (operator? true unarySymbols)

theorem unaryOperator_reads {op : UnaryOp} {dotted : Bool}
    (blank : skipBlank false cs = (Expr.dotText dotted ++ op.symbol).toList ++ rest) :
    unaryOperator.Reads cs (op, dotted) rest :=
  token_reads blank (by cases op <;> cases dotted <;> rfl)

/-- An operand with the operators before it. -/
def ReadsOperand (inner : Nested) (cs : List Char) (e : Expr) (rest : List Char) : Prop :=
  ∃ ops mid base, Chain unaryOperator cs ops mid ∧ unaryOperator.Refuses mid
    ∧ (indexed inner).Reads mid base rest
    ∧ ops.foldr (fun (op, dotted) e => .unary op e dotted) base = e

theorem ReadsOperand.indexed (h : (indexed inner).Reads cs e rest)
    (plain : unaryOperator.Refuses cs) : ReadsOperand inner cs e rest :=
  ⟨[], cs, e, .nil cs, plain, h, rfl⟩

theorem ReadsOperand.unary {op : UnaryOp} {dotted : Bool}
    (first : unaryOperator.Reads cs (op, dotted) mid) (takes : mid.length < cs.length)
    (h : ReadsOperand inner mid e rest) : ReadsOperand inner cs (.unary op e dotted) rest := by
  obtain ⟨ops, mid', base, chain, stop, read, rfl⟩ := h
  exact ⟨(op, dotted) :: ops, mid', base, .cons first takes chain, stop, read, rfl⟩

theorem ReadsOperand.reads (h : ReadsOperand inner cs e rest) : (operand inner).Reads cs e rest := by
  obtain ⟨ops, mid, base, chain, stop, read, rfl⟩ := h
  exact (chain.many stop).bind (read.to rfl)

theorem refuses_operand (plain : unaryOperator.Refuses cs) (h : (primary inner).Refuses cs) :
    (operand inner).Refuses cs :=
  plain.many.bind_refuses (refuses_indexed h).bind

/-! ### Operators between operands -/

/-- One of several operators between operands. -/
def binaryOperator (dots : Bool) (ops : List BinaryOp) : Reader (BinaryOp × Bool) :=
  token (operator? dots (symbolsOf ops))

section

variable {dots dotted : Bool} {ops : List BinaryOp} {op : BinaryOp} {item : Reader Expr}
  {after : List Char}

theorem chain_single (h : item.Reads cs e rest) (none : (binaryOperator dots ops).Refuses rest) :
    (chain dots ops item).Reads cs (e, []) rest :=
  h.bind ((none.bind.many).to rfl)

theorem chain_pair (first : item.Reads cs left mid)
    (between : (binaryOperator dots ops).Reads mid (op, dotted) after)
    (second : item.Reads after right rest) (takes : rest.length < mid.length)
    (none : (binaryOperator dots ops).Refuses rest) :
    (chain dots ops item).Reads cs (left, [((op, dotted), right)]) rest := by
  have pair := between.bind (f := fun op => do return (op, ← item)) (second.bind (reads_pure _ _))
  exact first.bind (((Chain.cons pair takes (.nil rest)).many none.bind).to rfl)

theorem refuses_chain (h : item.Refuses cs) : (chain dots ops item).Refuses cs :=
  h.bind

end

/-- The levels of operators that group from the left, the tightest first. -/
def levels : List (Bool × List BinaryOp) :=
  [(true, [.mul, .div, .rem]), (true, [.add, .sub]), (true, [.eq, .ne, .le, .ge, .lt, .gt]),
    (false, [.and]), (false, [.or])]

/-- An item with the operators of several levels. -/
def climb (levels : List (Bool × List BinaryOp)) (item : Reader Expr) : Reader Expr :=
  levels.foldl (fun item level => leftLevel level.1 level.2 item) item

theorem disjunction_eq (inner : Nested) : disjunction inner = climb levels (power inner) := rfl

/-- No operator of the levels comes next. -/
def NoneOf (levels : List (Bool × List BinaryOp)) (cs : List Char) : Prop :=
  ∀ level ∈ levels, (binaryOperator level.1 level.2).Refuses cs

theorem climb_single {levels : List (Bool × List BinaryOp)} {item : Reader Expr}
    (h : item.Reads cs e rest) (none : NoneOf levels rest) :
    (climb levels item).Reads cs e rest := by
  induction levels generalizing item with
  | nil => exact h
  | cons level levels ih =>
      rw [NoneOf, List.forall_mem_cons] at none
      exact ih ((chain_single h none.1).to rfl) none.2

theorem climb_pair {below above : List (Bool × List BinaryOp)} {dots dotted : Bool}
    {ops : List BinaryOp} {op : BinaryOp} {item : Reader Expr} {after : List Char}
    (first : item.Reads cs left mid) (tighter : NoneOf below mid)
    (between : (binaryOperator dots ops).Reads mid (op, dotted) after)
    (second : item.Reads after right rest) (takes : rest.length < mid.length)
    (none : NoneOf (below ++ (dots, ops) :: above) rest) :
    (climb (below ++ (dots, ops) :: above) item).Reads cs (.binary op left right dotted) rest := by
  rw [NoneOf, List.forall_mem_append, List.forall_mem_cons] at none
  obtain ⟨below', here, above'⟩ := none
  rw [climb, List.foldl_append, List.foldl_cons]
  exact climb_single ((chain_pair (climb_single first tighter) between (climb_single second below')
    takes here).to rfl) above'

theorem refuses_climb {levels : List (Bool × List BinaryOp)} {item : Reader Expr}
    (h : item.Refuses cs) : (climb levels item).Refuses cs := by
  induction levels generalizing item with
  | nil => exact h
  | cons level levels ih => exact ih (refuses_chain h).bind

/-! ### Expressions -/

/-- Nothing comes next that continues an expression. -/
structure Closed (cs : List Char) : Prop where
  power : (binaryOperator true [.pow]).Refuses cs
  levels : NoneOf levels cs
  question : (sign "?").Refuses cs

theorem power_single (h : (operand inner).Reads cs e rest)
    (none : (binaryOperator true [.pow]).Refuses rest) : (power inner).Reads cs e rest :=
  (chain_single h none).to rfl

theorem expression_of_disjunction (h : (disjunction inner).Reads cs e rest)
    (closed : (sign "?").Refuses rest) : (expression inner).Reads cs e rest :=
  h.bind (closed.bind.optional.to rfl)

theorem expression_of_operand (h : (operand inner).Reads cs e rest) (closed : Closed rest) :
    (expression inner).Reads cs e rest :=
  expression_of_disjunction (climb_single (power_single h closed.power) closed.levels)
    closed.question

theorem refuses_expression (h : (operand inner).Refuses cs) : (expression inner).Refuses cs := by
  have tightest : (power inner).Refuses cs := (refuses_chain h).bind
  have loosest : (disjunction inner).Refuses cs := by
    rw [disjunction_eq]
    exact refuses_climb tightest
  exact loosest.bind

end TablePlan.Grammar
