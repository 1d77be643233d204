import TablePlan.Proofs.Expr.Grouping
import TablePlan.Proofs.Grammar.Printed

/-!
# Operators by precedence

Operands with operators between them, however many, are read as one tree: the operands and the
operators of the tree are in the order in which they are written, and the tree is grouped by
precedence. There is no other such tree, since what is written is read as one tree only.
-/

namespace TablePlan.Grammar

open Reader

/-! ### What is written -/

/-- An integer or a name as it is written. -/
inductive Atom where
  | integer (digits : List Char) (numeral : IsNumeral digits)
  | name (word : String) (free : FreeName word)

/-- An atom with the operators right before it, each with a dot or without. -/
structure Operand where
  signs : List (UnaryOp × Bool)
  atom : Atom

/-- An operator between operands and the operand after it. Connectives have no dot. -/
structure Link where
  op : BinaryOp
  dotted : Bool
  operand : Operand
  plain : dotted → op ≠ .and ∧ op ≠ .or

/-- Operands with operators between them. -/
structure OperatorChain where
  first : Operand
  links : List Link

namespace Atom

/-- The characters of an atom. -/
def chars : Atom → List Char
  | integer digits _ => digits
  | name word _ => word.toList

/-- What an atom stands for. -/
def expr : Atom → Expr
  | integer digits _ => .literal (.int (Int64.ofInt (Decimal.natOfDigits digits)))
  | name word _ => .ident word

end Atom

namespace Operand

/-- The characters of an operand. -/
def chars (operand : Operand) : List Char :=
  operand.signs.flatMap (fun (op, dotted) => (Expr.dotText dotted ++ op.symbol).toList)
    ++ operand.atom.chars

/-- What an operand stands for: the operator next to the atom applies first. -/
def expr (operand : Operand) : Expr :=
  operand.signs.foldr (fun (op, dotted) e => .unary op e dotted) operand.atom.expr

end Operand

/-- The characters of an operator between blanks and of the operand after it. -/
def Link.chars (link : Link) : List Char :=
  ' ' :: (Expr.dotText link.dotted ++ link.op.symbol).toList ++ ' ' :: link.operand.chars

namespace OperatorChain

/-- The characters of a chain. -/
def chars (c : OperatorChain) : List Char :=
  c.first.chars ++ c.links.flatMap Link.chars

/-- A chain as it is written. -/
def text (c : OperatorChain) : String :=
  String.ofList c.chars

/-- The operands and the operators of a chain. -/
def inOrder (c : OperatorChain) : Expr × List ((BinaryOp × Bool) × Expr) :=
  (c.first.expr, c.links.map fun link => ((link.op, link.dotted), link.operand.expr))

/-- An operation whose parts are written one after another. -/
theorem exists_parts {c : OperatorChain} {op : BinaryOp} {left right : Expr} {dotted : Bool}
    (h : (Expr.binary op left right dotted).inOrder = c.inOrder) :
    ∃ before after : OperatorChain, left.inOrder = before.inOrder ∧ right.inOrder = after.inOrder
      ∧ c.chars = before.chars ++ (' ' :: (Expr.dotText dotted ++ op.symbol).toList ++ ' ' :: after.chars)
      ∧ (dotted → op ≠ .and ∧ op ≠ .or) := by
  obtain ⟨first, links⟩ := c
  simp only [Expr.inOrder, inOrder, Prod.mk.injEq] at h
  obtain ⟨same, later⟩ := h
  obtain ⟨links₁, rest, rfl, before, later⟩ := List.map_eq_append_iff.mp later.symm
  obtain ⟨link, links₂, rfl, here, after⟩ := List.map_eq_cons_iff.mp later
  simp only [Prod.mk.injEq] at here
  obtain ⟨⟨rfl, rfl⟩, second⟩ := here
  refine ⟨⟨first, links₁⟩, ⟨link.operand, links₂⟩, ?_, ?_, ?_, link.plain⟩
  · rw [inOrder, before, ← same]
  · rw [inOrder, after, second]
  · simp [chars, Link.chars]

end OperatorChain

/-! ### Operands -/

variable {inner : Nested} {cs tail : List Char}

theorem Atom.shown (atom : Atom) : ∃ c t, atom.chars = c :: t ∧ c ∉ reserved
    ∧ c ∉ ['-', '!', '.'] := by
  cases atom with
  | integer digits numeral =>
      obtain ⟨c, t, whole, digit⟩ := numeral.exists_cons
      exact ⟨c, t, whole, not_mem_of_all (by decide) digit, not_mem_of_all (by decide) digit⟩
  | name word free =>
      obtain ⟨c, t, whole, start, -⟩ := toList_of_plain free.plain
      exact ⟨c, t, whole, not_mem_of_all (by decide) start, not_mem_of_all (by decide) start⟩

theorem Atom.reads (atom : Atom) (blank : skipBlank false cs = atom.chars ++ tail)
    (after : Touches tail) : (primary inner).Reads cs atom.expr tail := by
  cases atom with
  | integer digits numeral => exact primary_digits numeral blank after
  | name word free => exact primary_name blank free after.detached

namespace Operand

theorem single (operand : Operand) : operand.expr.Single := by
  obtain ⟨signs, atom⟩ := operand
  cases signs with
  | nil => cases atom <;> exact nofun
  | cons sign signs => exact nofun

theorem shown (operand : Operand) : ∃ c t, operand.chars = c :: t ∧ c ∉ reserved := by
  obtain ⟨signs, atom⟩ := operand
  cases signs with
  | nil =>
      obtain ⟨c, t, whole, free, -⟩ := atom.shown
      exact ⟨c, t, whole, free⟩
  | cons sign signs =>
      obtain ⟨op, dotted⟩ := sign
      cases op <;> cases dotted <;> exact ⟨_, _, rfl, by decide⟩

theorem skipBlank (operand : Operand) (tail : List Char) :
    skipBlank false (operand.chars ++ tail) = operand.chars ++ tail := by
  obtain ⟨c, t, whole, free⟩ := operand.shown
  rw [whole]
  exact skipBlank_of_head free

theorem reads (operand : Operand) (blank : Grammar.skipBlank false cs = operand.chars ++ tail)
    (after : Follows tail) : ReadsOperand inner cs operand.expr tail := by
  obtain ⟨signs, atom⟩ := operand
  induction signs generalizing cs with
  | nil =>
      obtain ⟨c, t, whole, -, plain⟩ := atom.shown
      have read : (primary inner).Reads cs atom.expr tail := atom.reads blank (.follows after)
      refine .indexed ((ReadsApplied.primary read).indexed after.not_index) ?_
      have here : Grammar.skipBlank false cs = c :: (t ++ tail) := by
        rw [blank, ← List.cons_append, ← whole]
        rfl
      exact token_refuses here (operator?_of_head plain (t ++ tail))
  | cons sign signs ih =>
      obtain ⟨op, dotted⟩ := sign
      have here : Grammar.skipBlank false cs
          = (Expr.dotText dotted ++ op.symbol).toList ++ (Operand.chars ⟨signs, atom⟩ ++ tail) := by
        simp [blank, chars]
      obtain ⟨c, t, whole⟩ : ∃ c t, (Expr.dotText dotted ++ op.symbol).toList = c :: t := by
        cases op <;> cases dotted <;> exact ⟨_, _, rfl⟩
      exact .unary (unaryOperator_reads here) (length_lt_of_blank here whole)
        (ih (Operand.skipBlank ⟨signs, atom⟩ tail))

end Operand

theorem OperatorChain.skipBlank (c : OperatorChain) (tail : List Char) :
    Grammar.skipBlank false (c.chars ++ tail) = c.chars ++ tail := by
  rw [chars, List.append_assoc]
  exact c.first.skipBlank _

/-! ### Levels of precedence -/

/-- All levels of operators, the tightest first. -/
def tiers : List (Bool × List BinaryOp) :=
  (true, [.pow]) :: levels

/-- The reader of operands with the operators of the `n` tightest levels. -/
def tier (inner : Nested) : Nat → Reader Expr
  | 0 => operand inner
  | n + 1 => climb (levels.take n) (power inner)

/-- How a level groups its operands. -/
def group : Nat → Expr → List ((BinaryOp × Bool) × Expr) → Expr
  | 0 => groupRight
  | _ + 1 => groupLeft

/-- Nothing or an operator looser than the `n` tightest levels comes next. -/
inductive LooserNext (n : Nat) : List Char → Prop
  | nothing : LooserNext n []
  | operator {op : BinaryOp} (looser : n < op.looseness) (dotted : Bool) (rest : List Char) :
      LooserNext n (' ' :: (Expr.dotText dotted ++ op.symbol).toList ++ ' ' :: rest)

section

variable {n m : Nat} {e left right : Expr} {op : BinaryOp} {dotted : Bool} {mid after : List Char}

theorem tier_succ (inner : Nested) (h : n < tiers.length) :
    tier inner (n + 1) = do
      let (first, rest) ← chain tiers[n].1 tiers[n].2 (tier inner n)
      return group n first rest := by
  match n, h with
  | 0, _ | 1, _ | 2, _ | 3, _ | 4, _ | 5, _ => rfl

theorem mem_tiers (h : n < tiers.length) : op ∈ tiers[n].2 ↔ op.looseness = n + 1 := by
  match n, h with
  | 0, _ | 1, _ | 2, _ | 3, _ | 4, _ | 5, _ => cases op <;> decide +revert

/-- Only the connectives have no dot. -/
theorem dots_of_plain (h : n < tiers.length) (inside : op.looseness = n + 1)
    (plain : dotted → op ≠ .and ∧ op ≠ .or) : dotted → tiers[n].1 := by
  intro dot
  obtain ⟨notAnd, notOr⟩ := plain dot
  match n, h with
  | 0, _ | 1, _ | 2, _ | 3, _ => rfl
  | 4, _ => cases op <;> first | exact absurd rfl notAnd | cases inside
  | 5, _ => cases op <;> first | exact absurd rfl notOr | cases inside

theorem LooserNext.follows (h : LooserNext n tail) : Follows tail := by
  cases h with
  | nothing => exact .ends .nothing
  | operator _ dotted rest => exact .operator _ dotted rest

theorem LooserNext.mono (h : LooserNext m tail) (le : n ≤ m) : LooserNext n tail := by
  cases h with
  | nothing => exact .nothing
  | operator looser dotted rest => exact .operator (Nat.lt_of_le_of_lt le looser) dotted rest

/-- A level does not go on before an operator of a looser one. -/
theorem LooserNext.refuses (after : LooserNext (n + 1) tail) (h : n < tiers.length) :
    (binaryOperator tiers[n].1 tiers[n].2).Refuses tail := by
  have level : (tiers[n].1, tiers[n].2) ∈ (true, [.pow]) :: levels := List.getElem_mem h
  cases after with
  | nothing => exact Ends.nothing.refuses (absent_operator level)
  | operator looser dotted rest =>
      refine binaryOperator_refuses level (fun inside => ?_) rest
      rw [mem_tiers h] at inside
      omega

/-- The operands of a level are read, and more of them may follow. -/
def ReadsChain (inner : Nested) (n : Nat) (h : n < tiers.length) (cs : List Char) (e : Expr)
    (tail : List Char) : Prop :=
  ∃ first mid links, (tier inner n).Reads cs first mid ∧ mid.length ≤ cs.length
    ∧ Chain (do
        let op ← binaryOperator tiers[n].1 tiers[n].2
        let e ← tier inner n
        return (op, e)) mid links tail
    ∧ group n first links = e

namespace ReadsChain

theorem single (h : n < tiers.length) (read : (tier inner n).Reads cs e tail)
    (takes : tail.length ≤ cs.length) : ReadsChain inner n h cs e tail :=
  ⟨e, tail, [], read, takes, .nil tail, by cases n <;> rfl⟩

theorem length_le {h : n < tiers.length} (read : ReadsChain inner n h cs e tail) :
    tail.length ≤ cs.length := by
  obtain ⟨first, mid, links, -, takes, chain, -⟩ := read
  exact Nat.le_trans chain.length_le takes

theorem reads {h : n < tiers.length} (read : ReadsChain inner n h cs e tail)
    (after : LooserNext (n + 1) tail) : (tier inner (n + 1)).Reads cs e tail := by
  obtain ⟨first, mid, links, start, -, chain, rfl⟩ := read
  rw [tier_succ inner h]
  have whole : (Grammar.chain tiers[n].1 tiers[n].2 (tier inner n)).Reads cs (first, links) tail :=
    start.bind ((chain.many (after.refuses h).bind).to rfl)
  exact whole.to rfl

/-- What one level reads is an operand of every looser one. -/
theorem climb {h : n < tiers.length} (read : ReadsChain inner n h cs e tail) (le : n ≤ m)
    (bound : m < tiers.length) (after : LooserNext m tail) : ReadsChain inner m bound cs e tail := by
  induction le with
  | refl => exact read
  | @step m le ih =>
      have below : m < tiers.length := Nat.lt_of_succ_lt bound
      exact single bound ((ih below (after.mono (Nat.le_succ m))).reads after) read.length_le

/-- One more operand behind those of a level that groups from the left. -/
theorem snoc {h : n + 1 < tiers.length} (read : ReadsChain inner (n + 1) h cs left mid)
    (between : (binaryOperator tiers[n + 1].1 tiers[n + 1].2).Reads mid (op, dotted) after)
    (second : (tier inner (n + 1)).Reads after right tail) (takes : tail.length < mid.length) :
    ReadsChain inner (n + 1) h cs (.binary op left right dotted) tail := by
  obtain ⟨first, start, links, begins, shorter, chain, rfl⟩ := read
  refine ⟨first, start, links ++ [((op, dotted), right)], begins, shorter, chain.append ?_, ?_⟩
  · exact .cons (between.bind (second.to rfl)) takes (.nil tail)
  · simp [group, groupLeft]

/-- One more operand before those of the level that groups from the right. -/
theorem cons {h : 0 < tiers.length} (first : (tier inner 0).Reads cs left mid)
    (shorter : mid.length ≤ cs.length)
    (between : (binaryOperator tiers[0].1 tiers[0].2).Reads mid (op, dotted) after)
    (takes : after.length < mid.length) (read : ReadsChain inner 0 h after right tail) :
    ReadsChain inner 0 h cs (.binary op left right dotted) tail := by
  obtain ⟨second, start, links, begins, less, chain, rfl⟩ := read
  refine ⟨left, mid, ((op, dotted), second) :: links, first, shorter, ?_, rfl⟩
  exact .cons (between.bind (begins.to rfl)) (Nat.lt_of_le_of_lt less takes) chain

end ReadsChain

/-- An operator between blanks is read by its own level. -/
theorem tier_operator_reads (h : n < tiers.length) (inside : op.looseness = n + 1)
    (plain : dotted → op ≠ .and ∧ op ≠ .or) (rest : List Char) :
    (binaryOperator tiers[n].1 tiers[n].2).Reads
      (' ' :: (Expr.dotText dotted ++ op.symbol).toList ++ ' ' :: rest) (op, dotted) (' ' :: rest) :=
  binaryOperator_reads (List.getElem_mem h) ((mem_tiers h).mpr inside) (dots_of_plain h inside plain)
    rest

/-- A tree without operators between operands is written as one operand. -/
theorem operand_reads_of_single (alone : e.Single) {c : OperatorChain} (written : e.inOrder = c.inOrder)
    (blank : skipBlank false cs = c.chars ++ tail) (after : Follows tail) :
    (operand inner).Reads cs e tail := by
  obtain ⟨first, links⟩ := c
  rw [alone.inOrder_eq, OperatorChain.inOrder, Prod.mk.injEq] at written
  obtain ⟨rfl, none⟩ := written
  obtain rfl := List.map_eq_nil_iff.mp none.symm
  rw [OperatorChain.chars, List.flatMap_nil, List.append_nil] at blank
  exact (first.reads blank after).reads

/-- A tree that is grouped by precedence is read as it is written. -/
theorem readsChain_of_grouped (grouped : e.Grouped) {c : OperatorChain} (written : e.inOrder = c.inOrder)
    (blank : skipBlank false cs = c.chars ++ tail) (h : n < tiers.length)
    (loose : e.looseness ≤ n + 1) (after : LooserNext n tail) : ReadsChain inner n h cs e tail := by
  induction grouped generalizing c cs tail n with
  | @single e alone =>
      have read : (tier inner 0).Reads cs e tail :=
        operand_reads_of_single alone written blank after.follows
      exact (ReadsChain.single (by decide) read (length_le_of_blank blank)).climb (Nat.zero_le n) h after
  | @left op l r dotted other _ _ same tighter first second =>
      obtain ⟨m, level⟩ : ∃ m, op.looseness = m + 2 := by
        have least := op.looseness_pos
        have more : op.looseness ≠ 1 := fun one => other (BinaryOp.looseness_eq_one.mp one)
        exact ⟨op.looseness - 2, by omega⟩
      have le : m + 1 ≤ n := by
        rw [Expr.looseness] at loose
        omega
      have bound : m + 1 < tiers.length := Nat.lt_of_le_of_lt le h
      obtain ⟨before, later, beforeWritten, laterWritten, whole, plain⟩ :=
        OperatorChain.exists_parts written
      rw [whole, List.append_assoc, List.append_assoc, List.cons_append] at blank
      -- The first operand is read at the level of the operator, which goes on with it, and the second
      -- one at the level below, which stops at whatever comes after it.
      have begins := first beforeWritten blank bound (by omega) (.operator (by omega) dotted _)
      have between := tier_operator_reads bound level plain (later.chars ++ tail)
      have below : m < tiers.length := Nat.lt_of_succ_lt bound
      have next : skipBlank false (' ' :: (later.chars ++ tail)) = later.chars ++ tail :=
        later.skipBlank tail
      have ends := second laterWritten next below (by omega) (after.mono (Nat.le_of_succ_le le))
      have read := begins.snoc between (ends.reads (after.mono le)) (by simp; omega)
      exact read.climb le h after
  | @right l r dotted _ _ tighter same _ second =>
      have alone : l.Single := Expr.single_of_looseness (Nat.lt_one_iff.mp tighter)
      obtain ⟨before, later, beforeWritten, laterWritten, whole, plain⟩ :=
        OperatorChain.exists_parts written
      rw [whole, List.append_assoc, List.append_assoc, List.cons_append] at blank
      -- Here the second operand is read at the level of the operator and the first one below.
      have bound : 0 < tiers.length := by decide
      have begins : (tier inner 0).Reads cs l _ :=
        operand_reads_of_single alone beforeWritten blank (.operator .pow dotted _)
      have between := tier_operator_reads bound rfl plain (later.chars ++ tail)
      have next : skipBlank false (' ' :: (later.chars ++ tail)) = later.chars ++ tail :=
        later.skipBlank tail
      have ends := second laterWritten next bound same (after.mono (Nat.zero_le n))
      have read := ReadsChain.cons begins (length_le_of_blank blank) between (by simp; omega) ends
      exact read.climb (Nat.zero_le n) h after

end

/-! ### Whole texts -/

/-- A tree that is grouped by precedence is what the text of its operands and operators is read as. -/
theorem read_of_grouped {e : Expr} (grouped : e.Grouped) {c : OperatorChain}
    (written : e.inOrder = c.inOrder) : Expr.read c.text = .ok e := by
  have blank : skipBlank false c.text.toList = c.chars ++ [] := by
    rw [OperatorChain.text, String.toList_ofList]
    simpa using c.skipBlank []
  have top (inner : Nested) : (disjunction inner).Reads c.text.toList e [] := by
    have chain : ReadsChain inner 5 (by decide) c.text.toList e [] :=
      readsChain_of_grouped grouped written blank (by decide) e.looseness_le .nothing
    exact chain.reads .nothing
  have read : (nested (c.text.toList.length + 1)).expr.Reads c.text.toList e [] :=
    expression_of_disjunction (top _) (token_refuses rfl rfl)
  obtain ⟨d, t, shown, free⟩ := c.first.shown
  rw [OperatorChain.chars, shown] at blank
  have undirected : (nested (c.text.toList.length + 1)).directed.Refuses c.text.toList :=
    directed_refuses blank (by rintro rfl; exact absurd free (by decide)) _
  exact readAll_of_reads (argument_of_expr undirected read (token_refuses rfl rfl))

namespace OperatorChain

theorem exists_grouped_append {e : Expr} (grouped : e.Grouped) (links : List Link) :
    ∃ e' : Expr, e'.Grouped ∧ e'.inOrder = (e.inOrder.1,
      e.inOrder.2 ++ links.map fun link => ((link.op, link.dotted), link.operand.expr)) := by
  -- The operators are pushed from the first to the last, so the tree so far is any grouped one.
  induction links generalizing e with
  | nil => exact ⟨e, grouped, by simp⟩
  | cons link links ih =>
      have alone := link.operand.single
      have pushed : (e.push link.op link.dotted link.operand.expr).Grouped := grouped.push alone
      obtain ⟨e', grouped', order⟩ := ih pushed
      exact ⟨e', grouped', by simp [order, Expr.inOrder_push alone]⟩

/-- Whatever stands between operands can be grouped by precedence. -/
theorem exists_grouped (c : OperatorChain) : ∃ e : Expr, e.Grouped ∧ e.inOrder = c.inOrder := by
  obtain ⟨e, grouped, order⟩ := exists_grouped_append (.single c.first.single) c.links
  refine ⟨e, grouped, ?_⟩
  rw [order, c.first.single.inOrder_eq]
  rfl

/-- Operands with operators between them are read as the tree with these operands and operators in
this order that is grouped by precedence, and there is no other such tree. -/
theorem read_text (c : OperatorChain) :
    ∃ e, Expr.read c.text = .ok e ∧ ∀ e' : Expr, e'.Grouped ∧ e'.inOrder = c.inOrder ↔ e' = e := by
  obtain ⟨e, grouped, written⟩ := c.exists_grouped
  have read := read_of_grouped grouped written
  refine ⟨e, read, fun e' => ⟨fun ⟨grouped', written'⟩ => ?_, ?_⟩⟩
  · -- Two trees written alike are read from one text.
    have again := read_of_grouped grouped' written'
    exact Except.ok.inj (again.symm.trans read)
  · rintro rfl
    exact ⟨grouped, written⟩

end OperatorChain

end TablePlan.Grammar
