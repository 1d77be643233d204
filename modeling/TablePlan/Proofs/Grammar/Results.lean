import TablePlan.Grammar.Call
import TablePlan.Proofs.Expr.WellFormed

/-!
# What can be read

`reader.Yields P` says that `P` holds of every result that is read without a fault; there is one
rule for every way to put readers together. The readers that expressions nest through yield
well-formed expressions if the readers inside them do, so every text that can be read stands for
well-formed expressions.
-/

namespace TablePlan

namespace Grammar

open Reader

namespace Reader

variable {α β : Type}

/-- Where the reader leaves no fault there was none before, and what it read satisfies `P`. -/
def Yields (P : α → Prop) (reader : Reader α) : Prop :=
  ∀ c a c', reader c = some (a, c') → c'.fault = none → c.fault = none ∧ P a

variable {P : α → Prop}

theorem Yields.mono {Q : α → Prop} {x : Reader α} (h : x.Yields P) (weaker : ∀ a, P a → Q a) :
    x.Yields Q :=
  fun c a c' read clean => (h c a c' read clean).imp_right (weaker a)

theorem yields_pure {a : α} (h : P a) : Yields P (pure a : Reader α) := by
  rintro c a' c' read clean
  cases read
  exact ⟨clean, h⟩

theorem yields_failure : Yields P (failure : Reader α) :=
  fun _ _ _ read => nomatch read

/-- A reader that finds a fault yields nothing. -/
theorem yields_report {P : Unit → Prop} (fault : Fault) : (report fault).Yields P := by
  intro c a c' read clean
  cases read
  cases clean

/-- Whatever the rest relies on of the first result is known only when all is read. -/
theorem Yields.bind {Q : β → Prop} {x : Reader α} {f : α → Reader β} (first : x.Yields P)
    (second : ∀ a, (f a).Yields fun b => P a → Q b) : (x >>= f).Yields Q := by
  intro c b c' read clean
  obtain ⟨⟨a, c₁⟩, start, rest⟩ := Option.bind_eq_some_iff.mp read
  obtain ⟨clean₁, result⟩ := second a c₁ b c' rest clean
  obtain ⟨clean₀, known⟩ := first c a c₁ start clean₁
  exact ⟨clean₀, result known⟩

/-- What is read first may be anything. -/
theorem Yields.after {Q : β → Prop} {x : Reader α} {f : α → Reader β} (first : x.Yields fun _ => True)
    (second : ∀ a, (f a).Yields Q) : (x >>= f).Yields Q :=
  first.bind fun a => (second a).mono fun _ result _ => result

theorem Yields.map {Q : β → Prop} {x : Reader α} {f : α → β} (h : x.Yields P)
    (image : ∀ a, P a → Q (f a)) : (f <$> x).Yields Q := by
  rw [map_eq_pure_bind]
  exact h.bind fun a => yields_pure (image a)

theorem Yields.orElse {x y : Reader α} (first : x.Yields P) (second : y.Yields P) :
    (x <|> y).Yields P := by
  intro c a c' read
  change (x c).orElse (fun _ => y c) = some (a, c') at read
  cases attempt : x c with
  | none =>
      rw [attempt] at read
      exact second c a c' read
  | some found =>
      rw [attempt] at read
      cases read
      exact first c _ _ attempt

theorem Yields.optional {x : Reader α} (h : x.Yields P) :
    (optional x).Yields fun found => ∀ a ∈ found, P a :=
  (h.map (by simp)).orElse (yields_pure (by simp))

theorem Yields.many {x : Reader α} (h : x.Yields P) : (many x).Yields fun as => ∀ a ∈ as, P a := by
  have bounded (fuel : Nat) (c : Cursor) : (repeated x fuel c).2.fault = none →
      c.fault = none ∧ ∀ a ∈ (repeated x fuel c).1, P a := by
    induction fuel generalizing c with
    | zero => simp [repeated]
    | succ fuel ih =>
        unfold repeated
        cases read : x c with
        | none => simp
        | some next =>
            intro clean
            obtain ⟨clean₁, later⟩ := ih next.2 clean
            obtain ⟨clean₀, first⟩ := h _ _ _ read clean₁
            exact ⟨clean₀, List.forall_mem_cons.mpr ⟨first, later⟩⟩
  intro c as c' read clean
  have all := bounded c.rest.length c
  rw [Option.some.inj read] at all
  exact all clean

/-- A list with at least one element, all of which satisfy `P`. -/
def Several (P : α → Prop) (as : List α) : Prop :=
  as ≠ [] ∧ ∀ a ∈ as, P a

theorem several_cons {a : α} {as : List α} (first : P a) (later : ∀ a ∈ as, P a) :
    Several P (a :: as) :=
  ⟨List.cons_ne_nil a as, List.forall_mem_cons.mpr ⟨first, later⟩⟩

theorem Yields.many1 {x : Reader α} (h : x.Yields P) : (many1 x).Yields (Several P) :=
  h.bind fun _ => h.many.bind fun _ => yields_pure fun later first => several_cons first later

end Reader

/-! ### Lexemes -/

theorem yields_token {α : Type} {P : α → Prop} {lexeme : List Char → Option (α × List Char)}
    (h : ∀ cs a rest, lexeme cs = some (a, rest) → P a) : (token lexeme).Yields P := by
  intro c a c' read clean
  obtain ⟨⟨a', rest⟩, found, same⟩ := Option.map_eq_some_iff.mp read
  cases same
  exact ⟨clean, h _ _ _ found⟩

theorem token_yields {α : Type} (lexeme : List Char → Option (α × List Char)) :
    (token lexeme).Yields fun _ => True :=
  yields_token fun _ _ _ _ => trivial

theorem sign_yields (word : String) : (sign word).Yields fun _ => True :=
  token_yields _

theorem optionalSign_yields (word : String) : (optional (sign word)).Yields fun _ => True :=
  (sign_yields word).optional.mono fun _ _ => trivial

theorem equals_yields : equals.Yields fun _ => True := by
  refine .after (sign_yields _) fun _ c a c' read clean => ?_
  unfold notAhead at read
  split at read <;> cases read
  exact ⟨clean, trivial⟩

theorem yields_name : (token name?).Yields IsName :=
  yields_token fun _ _ _ read => (name?_some read).2

theorem yields_splat : (token splat?).Yields IsName :=
  yields_token fun _ _ _ read => (splat?_some read).2

theorem yields_directive :
    (token directive?).Yields fun letters => letters ≠ "" ∧ ∀ c ∈ letters.toList, c.isAlpha := by
  refine yields_token fun cs letters rest read => ?_
  unfold directive? at read
  split at read
  · unfold letters? at read
    dsimp only at read
    split at read <;> cases read
    rename_i cs some
    refine ⟨fun none => some ?_, fun c inside => ?_⟩
    · simpa using congrArg String.toList none
    · rw [String.toList_ofList] at inside
      exact List.all_eq_true.mp List.all_takeWhile c inside
  · cases read

theorem yields_operator {α : Type} (dots : Bool) (symbols : List (String × α)) :
    (token (operator? dots symbols)).Yields fun part =>
      (∃ symbol, (symbol, part.1) ∈ symbols) ∧ (part.2 = true → dots = true) := by
  refine yields_token fun cs part rest read => ?_
  obtain ⟨⟨symbol, op⟩, listed, found⟩ := List.exists_of_findSome?_eq_some read
  obtain ⟨_, -, same⟩ := Option.map_eq_some_iff.mp found
  cases same
  refine ⟨⟨symbol, listed⟩, ?_⟩
  dsimp only
  split
  · split <;> simp_all
  · simp

theorem positive_of_float {cs rest : List Char} {x : Float} (h : float? cs = some (x, rest)) :
    Decimal.Positive x := by
  obtain ⟨⟨whole, rest₁⟩, -, h⟩ := Option.bind_eq_some_iff.mp h
  dsimp only at h
  split at h
  · obtain ⟨⟨fraction, rest₂⟩, -, h⟩ := Option.bind_eq_some_iff.mp h
    dsimp only at h
    split at h <;> cases h <;> exact Decimal.positive_nearest ..
  · obtain ⟨⟨exponent, rest₂⟩, -, h⟩ := Option.bind_eq_some_iff.mp h
    cases h
    exact Decimal.positive_nearest ..

theorem nonneg_ofInt {n : Nat} (small : n ≤ Int64.maxValue.toInt.toNat) : 0 ≤ Int64.ofInt n := by
  have top : Int64.maxValue.toInt.toNat = 2 ^ 63 - 1 := rfl
  rw [Int64.le_iff_toInt_le, Int64.toInt_ofInt_of_le (by omega) (by omega)]
  exact Int.natCast_nonneg n

theorem yields_integer : (token digits? >>= integer).Yields fun i => 0 ≤ i := by
  refine .after (token_yields _) fun digits => ?_
  unfold integer
  dsimp only
  split
  · rename_i small
    exact yields_pure (nonneg_ofInt small)
  · exact (yields_report (P := fun _ => False) _).bind fun _ => yields_pure False.elim

theorem yields_literal : literal.Yields Literal.WellFormed := by
  have word : (token literalWord?).Yields Literal.WellFormed := by
    refine yields_token fun cs value rest read => ?_
    obtain ⟨⟨word, rest'⟩, -, read⟩ := Option.bind_eq_some_iff.mp read
    dsimp only at read
    split at read <;> cases read <;> trivial
  have float : (token float?).Yields Decimal.Positive :=
    yields_token fun _ _ _ => positive_of_float
  have text (lexeme : List Char → Option (String × List Char)) :
      (Literal.string <$> token lexeme).Yields Literal.WellFormed :=
    (token_yields lexeme).map fun _ _ => trivial
  refine .orElse (float.map fun x positive => ⟨positive, Decimal.Positive.isNaN_eq_false positive⟩) ?_
  exact .orElse (yields_integer.map fun _ unsigned => unsigned) (.orElse (text _)
    (.orElse (text _) word))

/-! ### Expressions -/

open TablePlan.Expr (WellFormed)

/-- The readers that expressions nest through yield well-formed expressions. -/
structure Nested.Sound (inner : Nested) : Prop where
  expr : inner.expr.Yields WellFormed
  operand : inner.operand.Yields WellFormed
  element : inner.element.Yields WellFormed
  directed : inner.directed.Yields WellFormed

theorem yields_commaItems {α : Type} {Q : α → Prop} {item : Reader α} (h : item.Yields Q) :
    (commaItems item).Yields (Several Q) := by
  have next : (do sign ","; item : Reader α).Yields Q := .after (sign_yields _) fun _ => h
  exact h.bind fun _ => next.many.bind fun _ => yields_pure fun later first =>
    several_cons first later

/-- What stands for one of several targets: a splat, or an expression. -/
def Item (e : Expr) : Prop :=
  (∃ name, IsName name ∧ e = .splat name) ∨ e.WellFormed

theorem Item.isName {name : String} (h : Item (.splat name)) : IsName name := by
  obtain ⟨other, isName, same⟩ | wellFormed := h
  · cases same
    exact isName
  · cases wellFormed

section

variable {inner : Nested} (h : inner.Sound)

include h

theorem yields_parenthesized : (parenthesized inner).Yields WellFormed :=
  .after (sign_yields _) fun _ => h.expr.bind fun _ => .after (sign_yields _) fun _ =>
    yields_pure id

theorem yields_assigned : (assigned inner).Yields WellFormed :=
  h.directed.orElse h.expr

theorem yields_indices : (indices inner).Yields (Several WellFormed) :=
  .after (sign_yields _) fun _ => (yields_commaItems h.expr).bind fun _ =>
    .after (sign_yields _) fun _ => yields_pure id

theorem yields_vector : (vector inner).Yields WellFormed := by
  have items : (do
      let items ← commaItems inner.expr
      let _ ← optional (sign ",")
      return items : Reader (List Expr)).Yields (Several WellFormed) :=
    (yields_commaItems h.expr).bind fun _ => .after (optionalSign_yields _)
      fun _ => yields_pure id
  refine .after (sign_yields _) fun _ => items.optional.bind fun found =>
    .after (sign_yields _) fun _ => yields_pure fun each => .vector ?_
  cases found with
  | none => exact fun _ => nofun
  | some items => exact (each items rfl).2

theorem yields_call : (call inner).Yields WellFormed := by
  refine yields_name.bind fun func => .after (optionalSign_yields _)
    fun dot => .after (sign_yields _) fun _ => ?_
  refine (yields_commaItems h.expr).optional.bind fun found => .after (sign_yields _) fun _ =>
    yields_pure fun each named => .call named ?_ _
  cases found with
  | none => exact fun _ => nofun
  | some items => exact (each items rfl).2

theorem yields_assignment : (assignment inner).Yields WellFormed :=
  h.expr.bind fun _ => .after equals_yields fun _ => (yields_assigned h).bind fun _ =>
    yields_pure fun right left => .assign left right

theorem yields_tupleItem : (tupleItem inner).Yields Item :=
  .orElse (yields_splat.map fun name isName => .inl ⟨name, isName, rfl⟩)
    (h.expr.mono fun _ => .inr)

theorem yields_tupleAssignment : (tupleAssignment inner).Yields WellFormed := by
  have next : (do sign ","; tupleItem inner : Reader Expr).Yields Item :=
    .after (sign_yields _) fun _ => yields_tupleItem h
  refine (yields_tupleItem h).bind fun first => next.many1.bind fun rest => .after equals_yields fun _ =>
    (yields_assigned h).bind fun value => yields_pure fun right later start => ?_
  have each : ∀ item ∈ first :: rest, Item item := List.forall_mem_cons.mpr ⟨start, later.2⟩
  refine .destructure ?several (fun name inside => (each _ inside).isName) ?others right
  case several =>
    have some := List.length_pos_iff.mpr later.1
    rw [List.length_cons]
    omega
  case others =>
    intro item inside single
    obtain ⟨name, -, rfl⟩ | wellFormed := each item inside
    · exact absurd rfl (single name)
    · exact wellFormed

theorem yields_statement : (statement inner).Yields WellFormed :=
  .orElse h.directed (.orElse (yields_tupleAssignment h) (.orElse (yields_assignment h) h.expr))

theorem yields_block : (block inner).Yields WellFormed := by
  have one : (do
      let e ← statement inner
      let _ ← optional (sign ";")
      return e : Reader Expr).Yields WellFormed :=
    (yields_statement h).bind fun _ => .after (optionalSign_yields _)
      fun _ => yields_pure id
  exact .after (sign_yields _) fun _ => one.many.bind fun _ => .after (sign_yields _) fun _ =>
    yields_pure .block

/-- Rows of different lengths are read with a fault. -/
theorem yields_matrix : (matrix inner).Yields WellFormed := by
  have row : (many1 inner.element).Yields (Several WellFormed) := h.element.many1
  have next : (do sign ";"; many1 inner.element : Reader (List Expr)).Yields (Several WellFormed) :=
    .after (sign_yields _) fun _ => row
  refine .after (sign_yields _) fun _ => row.bind fun first => next.many.bind fun rest =>
    .after (sign_yields _) fun _ => ?_
  dsimp only
  split
  · exact (yields_report (P := fun _ => False) _).bind fun _ => yields_pure False.elim
  · rename_i even
    refine yields_pure fun later start => ?_
    have each : ∀ row ∈ first :: rest, Several WellFormed row :=
      List.forall_mem_cons.mpr ⟨start, later⟩
    refine .matrix (List.cons_ne_nil first rest) (List.length_pos_iff.mpr start.1) ?_
      fun row listed => (each row listed).2
    rw [List.forall_mem_cons]
    simpa using even

theorem yields_interpolation : (interpolation inner).Yields WellFormed := by
  have around {x : Reader Expr} (h : x.Yields WellFormed) :
      (Expr.interpolated <$> x).Yields WellFormed :=
    h.map fun _ => .interpolated
  have quoted : ((fun s => Expr.column (.name s)) <$> token quoted?).Yields WellFormed :=
    (token_yields _).map fun s _ => .named s
  have position : ((fun i => Expr.column (.position i)) <$> (token digits? >>= integer)).Yields
      WellFormed := yields_integer.map fun _ => .position
  have name : ((fun s => Expr.interpolated (.ident s)) <$> token name?).Yields WellFormed :=
    yields_name.map fun _ isName => .interpolated (.ident isName)
  exact .after (sign_yields _) fun _ => .orElse (around (yields_parenthesized h))
    (.orElse (around (yields_vector h)) (.orElse (around (yields_matrix h))
      (.orElse position (.orElse quoted name))))

theorem yields_primary : (primary inner).Yields WellFormed := by
  have directed : (directedOperand inner).Yields WellFormed :=
    yields_directive.bind fun _ => h.operand.bind fun _ => yields_pure fun operand letters =>
      .directed letters.1 letters.2 operand
  have column : ((fun s => Expr.column (.name s)) <$> token columnName?).Yields WellFormed :=
    (token_yields _).map fun s _ => .named s
  have constant : (Expr.literal <$> literal).Yields WellFormed := yields_literal.map fun _ => .literal
  have ident : (Expr.ident <$> token name?).Yields WellFormed := yields_name.map fun _ => .ident
  exact .orElse directed (.orElse (yields_block h) (.orElse (yields_call h)
    (.orElse (yields_interpolation h) (.orElse column (.orElse constant
      (.orElse (yields_vector h) (.orElse (yields_matrix h)
        (.orElse (yields_parenthesized h) ident))))))))

theorem yields_indexed : (indexed inner).Yields WellFormed := by
  refine (yields_primary h).bind fun base => (yields_indices h).many.bind fun applied =>
    yields_pure fun each whole => ?_
  induction applied generalizing base with
  | nil => exact whole
  | cons items rest ih =>
      rw [List.forall_mem_cons] at each
      exact ih _ each.2 (.index whole each.1.1 each.1.2)

theorem yields_operand : (operand inner).Yields WellFormed := by
  refine .after ((token_yields _).many.mono fun _ _ => trivial) fun ops =>
    (yields_indexed h).bind fun e => yields_pure fun whole => ?_
  induction ops with
  | nil => exact whole
  | cons op rest ih => exact .unary op.1 ih op.2

end

/-! ### Operators between operands -/

/-- An operator with its right operand: one that joins truth values has no dot. -/
def Part (part : (BinaryOp × Bool) × Expr) : Prop :=
  (part.1.1 = .and ∨ part.1.1 = .or → part.1.2 = false) ∧ part.2.WellFormed

theorem wellFormed_groupLeft {first : Expr} {rest : List ((BinaryOp × Bool) × Expr)}
    (start : first.WellFormed) (later : ∀ part ∈ rest, Part part) :
    (groupLeft first rest).WellFormed := by
  induction rest generalizing first with
  | nil => exact start
  | cons part rest ih =>
      rw [List.forall_mem_cons] at later
      exact ih (.binary later.1.1 start later.1.2) later.2

theorem wellFormed_groupRight {first : Expr} {rest : List ((BinaryOp × Bool) × Expr)}
    (start : first.WellFormed) (later : ∀ part ∈ rest, Part part) :
    (groupRight first rest).WellFormed := by
  induction rest generalizing first with
  | nil => exact start
  | cons part rest ih =>
      rw [List.forall_mem_cons] at later
      rw [groupRight]
      exact .binary later.1.1 start (ih later.1.2 later.2)

section

variable {item : Reader Expr} (h : item.Yields WellFormed)

include h

theorem yields_chain {dots : Bool} {ops : List BinaryOp}
    (plain : dots = true → .and ∉ ops ∧ .or ∉ ops) :
    (chain dots ops item).Yields fun read => read.1.WellFormed ∧ ∀ part ∈ read.2, Part part := by
  have next : (do
      let op ← token (operator? dots (symbolsOf ops))
      let e ← item
      return (op, e)).Yields Part := by
    refine (yields_operator dots (symbolsOf ops)).bind fun op => h.bind fun e =>
      yields_pure fun whole written => ⟨fun joins => ?_, whole⟩
    obtain ⟨⟨symbol, listed⟩, dotted⟩ := written
    have level : op.1 ∈ ops := by
      obtain ⟨other, inside, same⟩ := List.mem_map.mp listed
      cases same
      exact inside
    refine Bool.eq_false_iff.mpr fun dot => ?_
    obtain ⟨noAnd, noOr⟩ := plain (dotted dot)
    obtain is | is := joins
    · exact noAnd (is ▸ level)
    · exact noOr (is ▸ level)
  exact h.bind fun first => next.many.bind fun rest => yields_pure fun later start => ⟨start, later⟩

theorem yields_leftLevel {dots : Bool} {ops : List BinaryOp}
    (plain : dots = true → .and ∉ ops ∧ .or ∉ ops) : (leftLevel dots ops item).Yields WellFormed :=
  (yields_chain h plain).bind fun _ => yields_pure fun parts =>
    wellFormed_groupLeft parts.1 parts.2

end

section

variable {inner : Nested} (h : inner.Sound)

include h

theorem yields_power : (power inner).Yields WellFormed :=
  (yields_chain (yields_operand h) fun _ => by decide).bind fun _ => yields_pure fun parts =>
    wellFormed_groupRight parts.1 parts.2

theorem yields_expression : (expression inner).Yields WellFormed := by
  have product : (product inner).Yields WellFormed :=
    yields_leftLevel (yields_power h) fun _ => by decide
  have sum : (sum inner).Yields WellFormed := yields_leftLevel product fun _ => by decide
  have comparison : (comparison inner).Yields WellFormed := yields_leftLevel sum fun _ => by decide
  have conjunction : (conjunction inner).Yields WellFormed := yields_leftLevel comparison nofun
  have disjunction : (disjunction inner).Yields WellFormed := yields_leftLevel conjunction nofun
  have branches : (do
      sign "?"
      let yes ← inner.expr
      sign ":"
      let no ← inner.expr
      return (yes, no)).Yields fun (both : Expr × Expr) =>
        both.1.WellFormed ∧ both.2.WellFormed :=
    .after (sign_yields _) fun _ => h.expr.bind fun _ => .after (sign_yields _) fun _ =>
      h.expr.bind fun _ => yields_pure fun right left => ⟨left, right⟩
  refine disjunction.bind fun cond => branches.optional.bind fun found => ?_
  cases found with
  | none => exact yields_pure fun _ whole => whole
  | some both =>
      refine yields_pure fun each whole => ?_
      have parts := each both rfl
      exact .conditional whole parts.1 parts.2

theorem yields_directed : (directed inner).Yields WellFormed :=
  yields_directive.bind fun _ => (yields_statement h).bind fun _ => yields_pure fun whole letters =>
    .directed letters.1 letters.2 whole

end

/-- At every depth what is read is well formed. -/
theorem nested_sound (depth : Nat) : (nested depth).Sound := by
  induction depth with
  | zero => exact ⟨yields_failure, yields_failure, yields_failure, yields_failure⟩
  | succ depth ih =>
      exact ⟨yields_expression ih, yields_operand ih, yields_indexed ih, yields_directed ih⟩

end Grammar

/-! ### Calls -/

namespace Arguments

/-- Well-formed arguments, and options with names. -/
structure WellFormed (arguments : Arguments) : Prop where
  positional : ∀ e ∈ arguments.positional, e.WellFormed
  options : ∀ o ∈ arguments.options, Grammar.IsName o.1 ∧ o.2.WellFormed

/-- All names in arguments and options, those of the options included. -/
def names (arguments : Arguments) : List String :=
  arguments.positional.flatMap Expr.names ++ arguments.options.flatMap fun o => o.1 :: o.2.names

theorem WellFormed.isName {arguments : Arguments} (h : arguments.WellFormed) {name : String}
    (inside : name ∈ arguments.names) : Grammar.IsName name := by
  obtain positional | option := List.mem_append.mp inside
  · obtain ⟨e, listed, inside⟩ := List.mem_flatMap.mp positional
    exact (h.positional e listed).isName inside
  · obtain ⟨o, listed, inside⟩ := List.mem_flatMap.mp option
    obtain rfl | inside := List.mem_cons.mp inside
    · exact (h.options o listed).1
    · exact (h.options o listed).2.isName inside

end Arguments

namespace Grammar

open Reader

open TablePlan.Expr (WellFormed)

section

variable {inner : Nested} (h : inner.Sound)

include h

theorem yields_argument : (argument inner).Yields WellFormed :=
  .orElse h.directed (.orElse (yields_assignment h) h.expr)

theorem yields_arguments : (arguments inner).Yields Arguments.WellFormed := by
  have list {α : Type} {Q : α → Prop} {item : Reader α} (h : item.Yields Q) :
      (commaList item).Yields (Several Q) :=
    (yields_commaItems h).bind fun _ => .after (optionalSign_yields _)
      fun _ => yields_pure id
  have option : (namedOption inner).Yields fun o => IsName o.1 ∧ o.2.WellFormed :=
    yields_name.bind fun _ => .after equals_yields fun _ => h.expr.bind fun _ =>
      yields_pure fun whole isName => ⟨isName, whole⟩
  have options : (do
      sign ";"
      optional (commaList (namedOption inner)) : Reader (Option (List (String × Expr)))).Yields
      fun found => ∀ items ∈ found, Several (fun o => IsName o.1 ∧ o.2.WellFormed) items :=
    .after (sign_yields _) fun _ => (list option).optional
  refine (list (yields_argument h)).optional.bind fun positional => options.optional.bind
    fun options => yields_pure fun right left => ⟨?_, ?_⟩
  · cases positional with
    | none => exact fun _ => nofun
    | some items => exact (left items rfl).2
  · obtain _ | _ | items := options
    · exact fun _ => nofun
    · exact fun _ => nofun
    · exact (right _ rfl items rfl).2

theorem yields_wholeCall : (wholeCall inner).Yields fun call => call.arguments.WellFormed :=
  .after (sign_yields _) fun _ => .after (token_yields _) fun _ => .after (sign_yields _) fun _ =>
    (yields_arguments h).bind fun _ => .after (sign_yields _) fun _ => yields_pure id

end

/-- A text that is read as a whole is read without a fault. -/
theorem readAll_yields {α : Type} {Q : α → Prop} {reader : Nested → Reader α} {text : String} {a : α}
    (h : ∀ inner : Nested, inner.Sound → (reader inner).Yields Q)
    (read : readAll reader text = .ok a) : Q a := by
  simp only [readAll] at read
  split at read
  · cases read
  · rename_i a' c whole
    split at read <;> cases read
    rename_i clean
    have yields : (do
        let a ← reader (nested (text.toList.length + 1))
        endOfText
        return a : Reader α).Yields Q :=
      (h _ (nested_sound _)).bind fun _ => .after (token_yields _) fun _ => yields_pure id
    exact (yields _ _ _ whole clean).2

end Grammar

/-- Whatever text is read, as an expression, as arguments or as a call: it stands for well-formed
expressions, and its names are none of those that planning makes up. -/
theorem read_well_formed (text : String) :
    (∀ e, Expr.read text = .ok e → e.WellFormed ∧ ∀ name ∈ e.names, IsFresh name)
    ∧ (∀ arguments, Arguments.read text = .ok arguments →
      arguments.WellFormed ∧ ∀ name ∈ arguments.names, IsFresh name)
    ∧ ∀ call, Call.read text = .ok call →
      call.arguments.WellFormed ∧ ∀ name ∈ call.arguments.names, IsFresh name := by
  refine ⟨fun e read => ?_, fun arguments read => ?_, fun call read => ?_⟩
  · have wellFormed := Grammar.readAll_yields (fun _ => Grammar.yields_argument) read
    exact ⟨wellFormed, fun name inside => (wellFormed.isName inside).isFresh⟩
  · have wellFormed := Grammar.readAll_yields (fun _ => Grammar.yields_arguments) read
    exact ⟨wellFormed, fun name inside => (wellFormed.isName inside).isFresh⟩
  · have wellFormed := Grammar.readAll_yields (fun _ => Grammar.yields_wholeCall) read
    exact ⟨wellFormed, fun name inside => (wellFormed.isName inside).isFresh⟩

/-- One text of each kind: several targets after a directive, a matrix and an option, and a call. -/
theorem written_names_well_formed :
    (∃ e, Expr.read "@c a, b... = c" = .ok e ∧ e.names = ["a", "b", "c"]
      ∧ e.WellFormed ∧ ∀ name ∈ e.names, IsFresh name)
    ∧ (∃ arguments, Arguments.read "[x y]; n = m" = .ok arguments
      ∧ arguments.names = ["x", "y", "n", "m"]
      ∧ arguments.WellFormed ∧ ∀ name ∈ arguments.names, IsFresh name)
    ∧ ∃ call, Call.read "@select($v[1])" = .ok call ∧ call.arguments.names = ["v"]
      ∧ call.arguments.WellFormed ∧ ∀ name ∈ call.arguments.names, IsFresh name := by
  let e : Expr := .directed "c" (.assign (.tuple [.ident "a", .splat "b"]) (.ident "c"))
  let arguments : Arguments := ⟨[.matrix [[.ident "x", .ident "y"]]], [("n", .ident "m")]⟩
  let call : Call := ⟨"select", ⟨[.index (.interpolated (.ident "v")) [.literal (.int 1)]], []⟩⟩
  have read : Expr.read "@c a, b... = c" = .ok e := rfl
  have read' : Arguments.read "[x y]; n = m" = .ok arguments := by cbv
  have read'' : Call.read "@select($v[1])" = .ok call := rfl
  refine ⟨⟨e, read, rfl, ?_⟩, ⟨arguments, read', rfl, ?_⟩, ⟨call, read'', rfl, ?_⟩⟩
  · exact (read_well_formed _).1 e read
  · exact (read_well_formed _).2.1 arguments read'
  · exact (read_well_formed _).2.2 call read''

/-- What holds of every node that the notation makes holds of every node of the arguments and options
of a call that is read. -/
theorem Call.all_of_read {P : Expr → Prop} (made : Expr.Made P) {text : String} {call : Call}
    (h : read text = .ok call) :
    (∀ e ∈ call.arguments.positional, e.All P) ∧ ∀ o ∈ call.arguments.options, o.2.All P := by
  have wellFormed := Grammar.readAll_yields (fun _ => Grammar.yields_wholeCall) h
  exact ⟨fun e listed => (wellFormed.positional e listed).all made,
    fun o listed => (wellFormed.options o listed).2.all made⟩

/-- An expression that comes from a text: it is read alone, as an argument or an option, or it is a part
of such an expression. -/
inductive Expr.Written : Expr → Prop
  | alone {text : String} {e : Expr} (read : Expr.read text = .ok e) : Written e
  | argument {text : String} {arguments : Arguments} (read : Arguments.read text = .ok arguments)
      {e : Expr} (listed : e ∈ arguments.positional) : Written e
  | option {text : String} {arguments : Arguments} (read : Arguments.read text = .ok arguments)
      {o : String × Expr} (listed : o ∈ arguments.options) : Written o.2
  | ofCall {text : String} {call : Call} (read : Call.read text = .ok call) {e : Expr}
      (listed : e ∈ call.arguments.positional) : Written e
  | ofCallOption {text : String} {call : Call} (read : Call.read text = .ok call)
      {o : String × Expr} (listed : o ∈ call.arguments.options) : Written o.2
  | part {e n : Expr} (whole : Written e) (inside : n ∈ e.nodes) : Written n

theorem Expr.Written.all {P : Expr → Prop} (made : Expr.Made P) {e : Expr} (h : e.Written) :
    e.All P := by
  induction h with
  | alone read =>
      exact (Grammar.readAll_yields (fun _ => Grammar.yields_argument) read).all made
  | argument read listed =>
      have wellFormed := Grammar.readAll_yields (fun _ => Grammar.yields_arguments) read
      exact (wellFormed.positional _ listed).all made
  | option read listed =>
      have wellFormed := Grammar.readAll_yields (fun _ => Grammar.yields_arguments) read
      exact (wellFormed.options _ listed).2.all made
  | ofCall read listed => exact (Call.all_of_read made read).1 _ listed
  | ofCallOption read listed => exact (Call.all_of_read made read).2 _ listed
  | part _ inside ih => exact fun n node => ih n (nodes_trans node inside)

end TablePlan
