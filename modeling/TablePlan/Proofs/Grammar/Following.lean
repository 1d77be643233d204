import TablePlan.Proofs.Grammar.Operators

/-!
# What comes after an expression

An expression as it is written is followed by the end of the text, by a closing mark, by an operator
between blanks or by a word. None of these is read as a part of the expression.
-/

namespace TablePlan.Grammar

open Reader

/-- What comes after a whole expression. -/
inductive Ends : List Char → Prop
  | nothing : Ends []
  | mark {c : Char} (rest : List Char) (h : c ∈ [')', ']', ',', ';']) : Ends (c :: rest)
  | colon (rest : List Char) : Ends (' ' :: ':' :: ' ' :: rest)
  | equals (rest : List Char) : Ends (' ' :: '=' :: ' ' :: rest)
  | keyword (rest : List Char) : Ends (' ' :: 'e' :: 'n' :: 'd' :: rest)

/-- What comes after an operand. -/
inductive Follows : List Char → Prop
  | ends {rest : List Char} (h : Ends rest) : Follows rest
  | operator (op : BinaryOp) (dotted : Bool) (rest : List Char) :
      Follows (' ' :: (Expr.dotText dotted ++ op.symbol).toList ++ ' ' :: rest)
  | question (rest : List Char) : Follows (' ' :: '?' :: ' ' :: rest)

/-- What comes after an operand or before its indices. -/
inductive Touches : List Char → Prop
  | follows {rest : List Char} (h : Follows rest) : Touches rest
  | index (rest : List Char) : Touches ('[' :: rest)

variable {rest : List Char}

theorem Ends.touches (h : Ends rest) : Touches rest :=
  .follows (.ends h)

/-- The marks that come right after an operand. -/
def boundaries : List Char := [')', ']', ',', ';', ' ', '[']

theorem Touches.head (h : Touches rest) : ∀ c ∈ rest.head?, c ∈ boundaries := by
  intro c first
  cases h with
  | follows h =>
      cases h with
      | ends h =>
          cases h with
          | nothing => cases first
          | mark rest h =>
              cases first
              simp only [List.mem_cons, List.not_mem_nil, or_false] at h
              rcases h with rfl | rfl | rfl | rfl <;> decide
          | _ =>
              cases first
              decide
      | _ =>
          cases first
          decide
  | index rest =>
      cases first
      decide

/-- What holds of every mark that can come after an operand holds of the one that does. -/
theorem Touches.head_of {P : Char → Prop} (h : Touches rest) (all : ∀ c ∈ boundaries, P c) :
    ∀ c ∈ rest.head?, P c :=
  fun c first => all c (h.head c first)

theorem Touches.apart (h : Touches rest) : ∀ c ∈ rest.head?, isNameChar c = false :=
  h.head_of (by decide)

section

variable {α : Type} {lexeme : List Char → Option (α × List Char)}

/-- A lexeme that is not found where an expression ends. -/
structure Absent (lexeme : List Char → Option (α × List Char)) : Prop where
  nothing : lexeme [] = none
  mark : ∀ c ∈ [')', ']', ',', ';', ':'], ∀ cs, lexeme (c :: cs) = none
  equals : ∀ cs, lexeme ('=' :: ' ' :: cs) = none
  keyword : ∀ cs, lexeme ('e' :: 'n' :: 'd' :: cs) = none

theorem Ends.refuses (h : Ends rest) (absent : Absent lexeme) : (token lexeme).Refuses rest := by
  cases h with
  | nothing => exact token_refuses rfl absent.nothing
  | @mark c rest h =>
      simp only [List.mem_cons, List.not_mem_nil, or_false] at h
      rcases h with rfl | rfl | rfl | rfl <;> exact token_refuses rfl (absent.mark _ (by simp) rest)
  | colon rest => exact token_refuses rfl (absent.mark ':' (by simp) _)
  | equals rest => exact token_refuses rfl (absent.equals rest)
  | keyword rest => exact token_refuses rfl (absent.keyword rest)

end

/-! ### Operators -/

/-- An operator between blanks is read by its own level and by no other. -/
theorem operator?_written {dots : Bool} {ops : List BinaryOp}
    (level : (dots, ops) ∈ (true, [.pow]) :: levels) (op : BinaryOp) (dotted : Bool)
    (rest : List Char) :
    operator? dots (symbolsOf ops) ((Expr.dotText dotted ++ op.symbol).toList ++ ' ' :: rest)
      = if op ∈ ops ∧ (dotted → dots) then some ((op, dotted), ' ' :: rest) else none := by
  simp only [levels, List.mem_cons, List.not_mem_nil, or_false, Prod.mk.injEq] at level
  rcases level with ⟨rfl, rfl⟩ | ⟨rfl, rfl⟩ | ⟨rfl, rfl⟩ | ⟨rfl, rfl⟩ | ⟨rfl, rfl⟩ | ⟨rfl, rfl⟩ <;>
    cases op <;> cases dotted <;> rfl

theorem skipBlank_operator (op : BinaryOp) (dotted : Bool) (rest : List Char) :
    skipBlank false (' ' :: (Expr.dotText dotted ++ op.symbol).toList ++ ' ' :: rest)
      = (Expr.dotText dotted ++ op.symbol).toList ++ ' ' :: rest := by
  cases op <;> cases dotted <;> rfl

theorem Follows.refuses {α : Type} {lexeme : List Char → Option (α × List Char)} (h : Follows rest)
    (absent : Absent lexeme) (question : ∀ cs, lexeme ('?' :: cs) = none)
    (operator : ∀ (op : BinaryOp) dotted cs,
      lexeme ((Expr.dotText dotted ++ op.symbol).toList ++ ' ' :: cs) = none) :
    (token lexeme).Refuses rest := by
  cases h with
  | ends h => exact h.refuses absent
  | operator op dotted rest =>
      exact token_refuses (skipBlank_operator op dotted rest) (operator op dotted rest)
  | question rest => exact token_refuses rfl (question _)

/-- No operator and no question mark is found where an expression ends. -/
theorem absent_operator {dots : Bool} {ops : List BinaryOp}
    (level : (dots, ops) ∈ (true, [.pow]) :: levels) :
    Absent (operator? dots (symbolsOf ops)) := by
  simp only [levels, List.mem_cons, List.not_mem_nil, or_false, Prod.mk.injEq] at level
  rcases level with ⟨rfl, rfl⟩ | ⟨rfl, rfl⟩ | ⟨rfl, rfl⟩ | ⟨rfl, rfl⟩ | ⟨rfl, rfl⟩ | ⟨rfl, rfl⟩ <;>
    exact ⟨rfl, by simp [operator?, symbolsOf, expect?, BinaryOp.symbol], fun _ => rfl, fun _ => rfl⟩

theorem absent_sign {c : Char} {word : List Char} (h : c ∉ [')', ']', ',', ';', ':', '=', 'e']) :
    Absent (expect? (c :: word)) := by
  simp only [List.mem_cons, List.not_mem_nil, or_false, not_or] at h
  constructor <;> simp [expect?, h]

theorem Ends.closed (h : Ends rest) : Closed rest :=
  ⟨h.refuses (absent_operator List.mem_cons_self),
    fun _ inside => h.refuses (absent_operator (List.mem_cons_of_mem _ inside)),
    h.refuses (absent_sign (by decide))⟩

theorem Follows.not_index (h : Follows rest) : (sign "[").Refuses rest :=
  h.refuses (absent_sign (by decide)) (fun _ => rfl) fun op dotted _ => by
    cases op <;> cases dotted <;> rfl

/-- A name before what comes after an operand is not the name of a call. -/
theorem Touches.not_call (h : Touches rest) :
    ∃ dot mid, (optional (sign ".")).Reads rest dot mid ∧ (sign "(").Refuses mid := by
  have plain {rest : List Char} (no : (sign ".").Refuses rest) (paren : (sign "(").Refuses rest) :
      ∃ dot mid, (optional (sign ".")).Reads rest dot mid ∧ (sign "(").Refuses mid :=
    ⟨none, rest, no.optional, paren⟩
  cases h with
  | follows h =>
      cases h with
      | ends h =>
          exact plain (h.refuses (absent_sign (by decide))) (h.refuses (absent_sign (by decide)))
      | operator op dotted rest =>
          cases dotted with
          | false =>
              have blank := skipBlank_operator op false rest
              exact plain (token_refuses blank (by cases op <;> rfl))
                (token_refuses blank (by cases op <;> rfl))
          | true =>
              refine ⟨some (), op.symbol.toList ++ ' ' :: rest, ?_, ?_⟩
              · exact (sign_reads (by rw [skipBlank_operator]; simp [Expr.dotText])).optional
              · cases op <;> exact token_refuses rfl rfl
      | question rest => exact plain (token_refuses rfl rfl) (token_refuses rfl rfl)
  | index rest => exact plain (token_refuses rfl rfl) (token_refuses rfl rfl)

/-! ### Operations between operands -/

section

variable {dots dotted : Bool} {ops : List BinaryOp} {op : BinaryOp}

theorem binaryOperator_reads (level : (dots, ops) ∈ (true, [.pow]) :: levels) (inside : op ∈ ops)
    (allowed : dotted → dots) (rest : List Char) :
    (binaryOperator dots ops).Reads
      (' ' :: (Expr.dotText dotted ++ op.symbol).toList ++ ' ' :: rest) (op, dotted) (' ' :: rest) :=
  token_reads (skipBlank_operator op dotted rest)
    (by rw [operator?_written level, if_pos ⟨inside, allowed⟩])

theorem binaryOperator_refuses (level : (dots, ops) ∈ (true, [.pow]) :: levels) (other : op ∉ ops)
    (rest : List Char) :
    (binaryOperator dots ops).Refuses
      (' ' :: (Expr.dotText dotted ++ op.symbol).toList ++ ' ' :: rest) :=
  token_refuses (skipBlank_operator op dotted rest)
    (by rw [operator?_written level, if_neg fun both => other both.1])

/-- The level of an operator, between the levels that are tighter and those that are looser. -/
theorem exists_level (power : op ≠ .pow) (allowed : dotted → op ≠ .and ∧ op ≠ .or) :
    ∃ (below : List (Bool × List BinaryOp)) (dots : Bool) (ops : List BinaryOp)
      (above : List (Bool × List BinaryOp)), levels = below ++ (dots, ops) :: above ∧ op ∈ ops
        ∧ (dotted → dots) ∧ ∀ level ∈ below, op ∉ level.2 := by
  cases op with
  | pow => exact absurd rfl power
  | mul | div | rem => exact ⟨[], _, _, _, rfl, by decide, fun _ => rfl, by simp⟩
  | add | sub => exact ⟨[_], _, _, _, rfl, by decide, fun _ => rfl, by simp⟩
  | eq | ne | lt | le | gt | ge => exact ⟨[_, _], _, _, _, rfl, by decide, fun _ => rfl, by simp⟩
  | and => exact ⟨[_, _, _], _, _, _, rfl, by decide, fun is => absurd rfl (allowed is).1, by simp⟩
  | or => exact ⟨[_, _, _, _], _, _, _, rfl, by decide, fun is => absurd rfl (allowed is).2, by simp⟩

/-- Two operands with an operator between them. -/
theorem disjunction_pair {inner : Nested} {cs after : List Char} {left right : Expr}
    (allowed : dotted → op ≠ .and ∧ op ≠ .or)
    (first : (operand inner).Reads cs left
      (' ' :: (Expr.dotText dotted ++ op.symbol).toList ++ ' ' :: after))
    (second : (operand inner).Reads (' ' :: after) right rest) (closed : Closed rest)
    (takes : rest.length ≤ after.length) :
    (disjunction inner).Reads cs (.binary op left right dotted) rest := by
  have shorter : rest.length
      < (' ' :: (Expr.dotText dotted ++ op.symbol).toList ++ ' ' :: after).length := by
    simp only [List.length_append, List.length_cons]
    omega
  by_cases power : op = .pow
  · subst power
    have between : (binaryOperator true [.pow]).Reads
        (' ' :: (Expr.dotText dotted ++ BinaryOp.pow.symbol).toList ++ ' ' :: after) (.pow, dotted)
        (' ' :: after) :=
      binaryOperator_reads List.mem_cons_self (List.mem_singleton_self _) (fun _ => rfl) after
    have read : (Grammar.power inner).Reads cs (.binary .pow left right dotted) rest :=
      (chain_pair first between second shorter closed.power).to rfl
    exact climb_single read closed.levels
  · obtain ⟨below, dots, ops, above, whole, inside, dotsAllowed, tighter⟩ :=
      exists_level power allowed
    have level : (dots, ops) ∈ (true, [.pow]) :: levels := by
      rw [whole]
      simp
    have unpowered : (binaryOperator true [.pow]).Refuses
        (' ' :: (Expr.dotText dotted ++ op.symbol).toList ++ ' ' :: after) :=
      binaryOperator_refuses List.mem_cons_self (by simpa using power) after
    have passed : NoneOf below (' ' :: (Expr.dotText dotted ++ op.symbol).toList ++ ' ' :: after) := by
      intro level inside
      refine binaryOperator_refuses (List.mem_cons_of_mem _ ?_) (tighter level inside) after
      rw [whole]
      exact List.mem_append_left _ inside
    have last := closed.levels
    rw [disjunction_eq]
    rw [whole] at last ⊢
    exact climb_pair (power_single first unpowered) passed
      (binaryOperator_reads level inside dotsAllowed after) (power_single second closed.power) shorter last

end

/-- A condition before its branches. -/
theorem disjunction_condition {inner : Nested} {cs : List Char} {cond : Expr}
    (h : (operand inner).Reads cs cond (' ' :: '?' :: ' ' :: rest)) :
    (disjunction inner).Reads cs cond (' ' :: '?' :: ' ' :: rest) := by
  have none {dots : Bool} {ops : List BinaryOp} (level : (dots, ops) ∈ (true, [.pow]) :: levels) :
      (binaryOperator dots ops).Refuses (' ' :: '?' :: ' ' :: rest) := by
    simp only [levels, List.mem_cons, List.not_mem_nil, or_false, Prod.mk.injEq] at level
    rcases level with ⟨rfl, rfl⟩ | ⟨rfl, rfl⟩ | ⟨rfl, rfl⟩ | ⟨rfl, rfl⟩ | ⟨rfl, rfl⟩ | ⟨rfl, rfl⟩ <;>
      exact token_refuses rfl rfl
  exact climb_single (power_single h (none List.mem_cons_self))
    fun _ inside => none (List.mem_cons_of_mem _ inside)

end TablePlan.Grammar
