import TablePlan.Proofs.Grammar.Primary

/-!
# Expressions whose text is read back

An expression is readable if its text is read as that expression wherever something that ends an
operand follows. Every form of expression passes this on from its parts.
-/

namespace TablePlan

namespace Grammar

open Reader TablePlan.Expr

/-! ### Readable expressions -/

/-- The text of an expression is read back wherever something that ends an operand follows. -/
structure Readable (e : Expr) : Prop where
  head : ∃ c t, e.text.toList = c :: t ∧ c ∉ reserved
    ∧ ((∀ op operand dotted, e ≠ .unary op operand dotted) → c ∉ ['-', '!', '.'])
  unsplat : ∀ rest, Touches rest → splat? (e.text.toList ++ rest) = none
  applied : (∀ op operand dotted, e ≠ .unary op operand dotted) → ∀ depth cs rest,
    e.text.toList.length ≤ depth → skipBlank false cs = e.text.toList ++ rest → Touches rest →
      ReadsApplied (nested depth) cs e rest
  operand : ∀ depth cs rest, e.text.toList.length ≤ depth →
    skipBlank false cs = e.text.toList ++ rest → Follows rest → ReadsOperand (nested depth) cs e rest

namespace Readable

variable {e : Expr} {depth : Nat} {cs rest : List Char}

theorem shown (h : Readable e) (rest : List Char) :
    skipBlank false (e.text.toList ++ rest) = e.text.toList ++ rest := by
  obtain ⟨c, t, whole, head, -⟩ := h.head
  rw [whole]
  exact skipBlank_of_head head

theorem expression (h : Readable e) (deep : e.text.toList.length ≤ depth)
    (blank : skipBlank false cs = e.text.toList ++ rest) (after : Ends rest) :
    (expression (nested depth)).Reads cs e rest :=
  expression_of_operand (h.operand depth cs rest deep blank (.ends after)).reads after.closed

/-- Inside of another expression. -/
theorem expr (h : Readable e) (deep : e.text.toList.length < depth)
    (blank : skipBlank false cs = e.text.toList ++ rest) (after : Ends rest) :
    (nested depth).expr.Reads cs e rest := by
  obtain ⟨depth, rfl⟩ : ∃ d, depth = d + 1 := ⟨depth - 1, by omega⟩
  exact h.expression (by omega) blank after

/-- An expression that does not begin with an operator. -/
theorem of_applied (head : ∃ c t, e.text.toList = c :: t ∧ c ∉ reserved ∧ c ∉ ['-', '!', '.'])
    (unsplat : ∀ rest, Touches rest → splat? (e.text.toList ++ rest) = none)
    (applied : ∀ depth cs rest, e.text.toList.length ≤ depth →
      skipBlank false cs = e.text.toList ++ rest → Touches rest →
      ReadsApplied (nested depth) cs e rest) : Readable e := by
  obtain ⟨c, t, whole, free, plain⟩ := head
  refine ⟨⟨c, t, whole, free, fun _ => plain⟩, unsplat, fun _ => applied,
    fun depth cs rest deep blank after => ?_⟩
  refine .indexed ((applied depth cs rest deep blank (.follows after)).indexed after.not_index) ?_
  rw [whole] at blank
  exact token_refuses blank (operator?_of_head plain (t ++ rest))

/-- An expression that is a primary operand. -/
theorem of_primary (head : ∃ c t, e.text.toList = c :: t ∧ c ∉ reserved ∧ c ∉ ['-', '!', '.'])
    (unsplat : ∀ rest, Touches rest → splat? (e.text.toList ++ rest) = none)
    (primary : ∀ depth cs rest, e.text.toList.length ≤ depth →
      skipBlank false cs = e.text.toList ++ rest → Touches rest →
      (Grammar.primary (nested depth)).Reads cs e rest) : Readable e :=
  of_applied head unsplat fun depth cs rest deep blank after =>
    .primary (primary depth cs rest deep blank after)

theorem unary (h : Readable e) (op : UnaryOp) (dotted : Bool) : Readable (.unary op e dotted) := by
  have text := toList_text_unary op e dotted
  have sign : ∃ c t, (dotText dotted ++ op.symbol).toList = c :: t ∧ c ∉ reserved
      ∧ isNameStart c = false := by
    cases op <;> cases dotted <;> exact ⟨_, _, rfl, by decide, by decide⟩
  obtain ⟨c, t, whole, free, plain⟩ := sign
  refine ⟨⟨c, t ++ e.text.toList, by rw [text, whole]; rfl, free,
    fun grouped => absurd rfl (grouped op e dotted)⟩, fun rest _ => ?_,
    fun grouped => absurd rfl (grouped op e dotted), fun depth cs rest deep blank after => ?_⟩
  · rw [text, whole]
    simp [splat?, name?_of_start plain]
  · rw [text, List.append_assoc] at blank
    have takes := length_lt_of_blank blank whole
    rw [text] at deep
    have short : e.text.toList.length ≤ depth := by
      rw [List.length_append] at deep
      omega
    exact .unary (unaryOperator_reads blank) takes (h.operand depth _ rest short (h.shown rest) after)

theorem of_mark {c : Char} {t : List Char} (whole : e.text.toList = c :: t)
    (mark : c ∈ ['"', ':', '$', '(', '['])
    (primary : ∀ depth cs rest, e.text.toList.length ≤ depth →
      skipBlank false cs = c :: (t ++ rest) → Touches rest →
      (Grammar.primary (nested depth)).Reads cs e rest) : Readable e := by
  have marks : ∀ c ∈ ['"', ':', '$', '(', '['],
      isNameStart c = false ∧ c ∉ reserved ∧ c ∉ ['-', '!', '.'] := by decide
  have start := marks c mark
  refine of_primary ⟨c, t, whole, start.2⟩ (fun rest _ => ?_) fun depth cs rest deep blank after => ?_
  · rw [whole]
    simp [splat?, name?_of_start start.1]
  · rw [whole] at blank
    exact primary depth cs rest deep blank after

theorem word {word : String} {v : Literal} (listed : (word, v) ∈ readWords)
    (text : v.text = word) : Readable (.literal v) := by
  obtain ⟨plain, keyword, -⟩ := keyword_of_constant listed
  obtain ⟨c, t, whole, start, -⟩ := toList_of_plain plain
  have text : (Expr.literal v).text = word := by rw [Expr.text, text]
  refine of_primary ⟨c, t, by rw [text, whole], not_mem_of_all (by decide) start,
    not_mem_of_all (by decide) start⟩ (fun rest after => ?_) fun depth cs rest _ blank after => ?_
  · rw [text, splat?, name?_keyword plain keyword after.apart]
    rfl
  · rw [text] at blank
    exact primary_constant listed blank after

theorem int {i : Int64} (h : 0 ≤ i) : Readable (.literal (.int i)) := by
  have text : (Expr.literal (.int i)).text.toList = Nat.toDigits 10 i.toInt.toNat := Decimal.toList_int h
  obtain ⟨c, t, whole, digit⟩ := Decimal.exists_digit i.toInt.toNat
  have start := not_nameStart_of_isDigit digit
  refine of_primary ⟨c, t, by rw [text, whole], not_mem_of_all (by decide) digit,
    not_mem_of_all (by decide) digit⟩ (fun rest _ => ?_) fun depth cs rest _ blank after => ?_
  · rw [text, whole]
    simp [splat?, name?_of_start start]
  · rw [text] at blank
    have read : (primary (nested depth)).Reads cs _ rest :=
      primary_digits (isNumeral_toDigits i) blank after
    rwa [natOfDigits_int h] at read

theorem string {s : String} (simple : ∀ c ∈ s.toList, IsSimple c) :
    Readable (.literal (.string s)) := by
  have text : (Expr.literal (.string s)).text.toList = '"' :: (s.toList.flatMap Text.escape ++ ['"']) :=
    Text.toList_quote s
  refine of_mark text (by simp) fun depth cs rest _ blank _ => ?_
  have read : (primary (nested depth)).Reads cs (.literal (.string (readBackText s))) rest :=
    primary_string (by rw [blank, Text.toList_quote]; rfl)
  rwa [readBackText_of_simple simple] at read

/-- A name is not read as a splat before what comes after an operand or before a call. -/
theorem splat?_name {name : String} (h : FreeName name)
    (stop : ∀ c ∈ rest.head?, isNameChar c = false) (dots : ¬ "...".toList <+: rest) :
    splat? (name.toList ++ rest) = none := by
  simpa [splat?, name?_append h.plain h.free stop, expect?] using dots

theorem ident {name : String} (h : FreeName name) : Readable (.ident name) := by
  obtain ⟨c, t, whole, start, -⟩ := toList_of_plain h.plain
  refine of_primary ⟨c, t, whole, not_mem_of_all (by decide) start,
    not_mem_of_all (by decide) start⟩ (fun rest after => ?_) fun depth cs rest _ blank after => ?_
  · refine splat?_name h after.apart ?_
    rintro ⟨more, rfl⟩
    exact absurd (after.head '.' rfl) (by decide)
  · exact primary_name blank h after.detached

theorem column {name : String} (h : FreeColumn name) : Readable (.column (.name name)) := by
  obtain ⟨t, whole⟩ := exists_columnText name
  refine of_mark whole (by simp) fun depth cs rest _ blank after => ?_
  have read : (primary (nested depth)).Reads cs (.column (.name (readBackText name))) rest :=
    primary_column h.free (by rw [blank, whole]; rfl) after.apart
  rwa [readBackText_of_simple h.simple] at read

theorem position {i : Int64} (h : 0 ≤ i) : Readable (.column (.position i)) := by
  have text : (Expr.column (.position i)).text.toList = '$' :: Nat.toDigits 10 i.toInt.toNat := by
    simp [Expr.text, ColumnIdent.text, Decimal.toList_int h]
  refine of_mark text (by simp) fun depth cs rest _ blank after => ?_
  obtain ⟨c, t, whole, digit⟩ := Decimal.exists_digit i.toInt.toNat
  have here : skipBlank false (Nat.toDigits 10 i.toInt.toNat ++ rest) = c :: (t ++ rest) := by
    rw [whole]
    exact skipBlank_of_head (not_mem_of_all (by decide) digit)
  have refuses (word : String) (some : word.toList ≠ [])
      (other : ∀ d ∈ word.toList.head?, d.isDigit = false) :
      (sign word).Refuses (Nat.toDigits 10 i.toInt.toNat ++ rest) := by
    refine sign_refuses_of_head here (fun d first same => ?_) some
    rw [same] at first
    simp [other c first] at digit
  have digits : (token digits?).Reads (Nat.toDigits 10 i.toInt.toNat ++ rest)
      (Nat.toDigits 10 i.toInt.toNat) rest :=
    token_reads (by rw [here, whole]; rfl)
      (digits?_append (isNumeral_toDigits i) (after.head_of (by decide)))
  have paren := refuses "(" (by simp) (by decide)
  have bracket := refuses "[" (by simp) (by decide)
  refine primary_interpolation rfl blank ?_
  have integer := integer_reads (isNumeral_toDigits i) rest
  rw [natOfDigits_int h] at integer
  exact paren.bind.map.orElse (bracket.bind.map.orElse (bracket.bind.map.orElse
    (digits.bind integer).map.orElse))

/-! ### Nested expressions -/

/-- Items between commas as they are written. -/
def joined (items : List Expr) : List Char :=
  (Text.joinWith ", " (itemTexts items)).toList

theorem joined_cons (first : Expr) (others : List Expr) : joined (first :: others)
    = first.text.toList ++ others.flatMap fun a => ',' :: ' ' :: a.text.toList := by
  rw [joined, itemTexts_eq, List.map_cons, Text.toList_joinWith, List.flatMap_map]
  rfl

theorem length_le_joined {items : List Expr} (inside : e ∈ items) :
    e.text.toList.length ≤ (joined items).length := by
  cases items with
  | nil => cases inside
  | cons first others =>
      rw [joined_cons, List.length_append]
      obtain rfl | later := List.mem_cons.mp inside
      · omega
      · have part := (List.sublist_flatten_of_mem (List.mem_map_of_mem
          (f := fun a => ',' :: ' ' :: a.text.toList) later)).length_le
        rw [← List.flatMap_def, List.length_cons, List.length_cons] at part
        omega

/-- Items between commas. -/
theorem items {first : Expr} {others : List Expr} (each : ∀ a ∈ first :: others, Readable a)
    (deep : (joined (first :: others)).length < depth)
    (blank : skipBlank false cs = joined (first :: others) ++ rest) (after : Ends rest)
    (stop : (sign ",").Refuses rest) :
    (commaItems (nested depth).expr).Reads cs (first :: others) rest := by
  have reads (a : Expr) (inside : a ∈ first :: others) (cs rest : List Char)
      (blank : skipBlank false cs = a.text.toList ++ rest) (after : Ends rest) :
      (nested depth).expr.Reads cs a rest :=
    (each a inside).expr (Nat.lt_of_le_of_lt (length_le_joined inside) deep) blank after
  rw [joined_cons] at blank
  exact commaItems_reads reads
    (fun a inside rest => (each a (List.mem_cons_of_mem _ inside)).shown rest) blank after stop

/-- Items between commas before a closing bracket, of which there may be none. -/
theorem items_or_none {items : List Expr} (each : ∀ a ∈ items, Readable a)
    (deep : (joined items).length < depth) {c : Char} (closing : c ∈ [')', ']']) (rest : List Char) :
    (commaItems (nested depth).expr).Reads (joined items ++ c :: rest) items (c :: rest)
      ∨ (commaItems (nested depth).expr).Refuses (c :: rest) ∧ items = [] := by
  have marks : ∀ c ∈ [')', ']'], c ∈ [')', ']', ',', ';'] ∧ c ∉ reserved ∧ c ≠ ',' := by decide
  obtain ⟨mark, free, other⟩ := marks c closing
  have here : skipBlank false (c :: rest) = c :: rest := skipBlank_of_head free
  cases items with
  | nil => exact .inr ⟨(expr_refuses_closing closing here depth).bind, rfl⟩
  | cons first others =>
      have blank : skipBlank false (joined (first :: others) ++ c :: rest)
          = joined (first :: others) ++ c :: rest := by
        rw [joined_cons, List.append_assoc]
        exact (each first List.mem_cons_self).shown _
      exact .inl (items each deep blank (.mark rest mark)
        (sign_refuses_of_head here (by simpa using Ne.symm other) (by simp)))

theorem vector_reads {items : List Expr} (each : ∀ a ∈ items, Readable a)
    (deep : (joined items).length < depth)
    (blank : skipBlank false cs = '[' :: (joined items ++ ']' :: rest)) :
    (Grammar.vector (nested depth)).Reads cs (.vector items) rest := by
  have opening : (sign "[").Reads cs () (joined items ++ ']' :: rest) := sign_reads blank
  have closing : (sign "]").Reads (']' :: rest) () rest := sign_reads rfl
  have comma : (sign ",").Refuses (']' :: rest) := token_refuses rfl rfl
  have bracket : ']' ∈ [')', ']'] := by simp
  obtain read | ⟨refuses, rfl⟩ := items_or_none each deep bracket rest
  · have found := read.bind (f := fun items => do let _ ← optional (sign ","); return items)
      (comma.optional.to rfl)
    exact opening.bind (found.optional.bind (closing.to rfl))
  · exact opening.bind (refuses.bind.optional.bind (closing.to rfl))

theorem vector {items : List Expr} (each : ∀ a ∈ items, Readable a) : Readable (.vector items) := by
  have text : (Expr.vector items).text.toList = '[' :: (joined items ++ [']']) := by
    simp [Expr.text, joined]
  refine of_mark text (by simp) fun depth cs rest deep blank _ => ?_
  rw [List.append_assoc] at blank
  rw [text, List.length_cons, List.length_append] at deep
  have small : (joined items).length < depth := by omega
  have read := vector_reads each small blank
  have constant : literal.Refuses cs :=
    literal_refuses blank (by decide) (by decide) (literalWord?_of_start (by decide))
  exact primary_skips_columns rfl blank (by decide) (block_refuses blank (by simp))
    (call_refuses_of_name blank (name?_of_start (by decide))) (constant.map.orElse read.orElse)

theorem call {func : String} {args : List Expr} (named : FreeName func)
    (each : ∀ a ∈ args, Readable a) (dotted : Bool) : Readable (.call func args dotted) := by
  obtain ⟨c, t, whole, start, -⟩ := toList_of_plain named.plain
  have text : (Expr.call func args dotted).text.toList
      = func.toList ++ ((dotText dotted).toList ++ '(' :: (joined args ++ [')'])) := by
    simp [Expr.text, joined]
  have apart (rest : List Char) : ∀ c ∈ ((dotText dotted).toList ++ '(' :: rest).head?,
      isNameChar c = false := by
    cases dotted <;> rintro c ⟨⟩ <;> rfl
  refine of_primary ⟨c, t ++ _, by rw [text, whole]; rfl, not_mem_of_all (by decide) start,
    not_mem_of_all (by decide) start⟩ (fun rest after => ?_) fun depth cs rest deep blank after => ?_
  · rw [text, List.append_assoc, List.append_assoc]
    refine splat?_name named (apart _) ?_
    rintro ⟨_, same⟩
    cases dotted <;> cases same
  · rw [text] at deep blank
    simp only [List.append_assoc, List.cons_append, List.nil_append] at blank
    simp only [List.length_append, List.length_cons] at deep
    have name : (token name?).Reads cs func
        ((dotText dotted).toList ++ '(' :: (joined args ++ ')' :: rest)) :=
      token_reads blank (name?_append named.plain named.free (apart _))
    have dot : ∃ found, (optional (sign ".")).Reads
        ((dotText dotted).toList ++ '(' :: (joined args ++ ')' :: rest)) found
        ('(' :: (joined args ++ ')' :: rest)) ∧ found.isSome = dotted := by
      cases dotted with
      | true => exact ⟨_, (sign_reads rfl).optional, rfl⟩
      | false => exact ⟨_, Refuses.optional (token_refuses rfl rfl), rfl⟩
    obtain ⟨found, dot, rfl⟩ := dot
    have opening : (sign "(").Reads ('(' :: (joined args ++ ')' :: rest)) ()
        (joined args ++ ')' :: rest) := sign_reads rfl
    have closing : (sign ")").Reads (')' :: rest) () rest := sign_reads rfl
    have bracket : ')' ∈ [')', ']'] := by simp
    have small : (joined args).length < depth := by omega
    have read : (Grammar.call (nested depth)).Reads cs (.call func args found.isSome) rest := by
      refine name.bind (dot.bind (opening.bind ?_))
      obtain read | ⟨refuses, rfl⟩ := items_or_none each small bracket rest
      · exact read.optional.bind (closing.to rfl)
      · exact refuses.optional.bind (closing.to rfl)
    have begun := named.not_begin _ (apart (joined args ++ ')' :: rest))
    rw [whole] at blank begun
    have directive : (directedOperand (nested depth)).Refuses cs :=
      (token_refuses blank (directive?_of_head (by rintro rfl; cases start))).bind
    have block : (Grammar.block (nested depth)).Refuses cs := (sign_refuses blank begun).bind
    exact directive.orElse (block.orElse read.orElse)

theorem index {items : List Expr} (h : Readable e)
    (grouped : ∀ op operand dotted, e ≠ .unary op operand dotted) (some : items ≠ [])
    (each : ∀ a ∈ items, Readable a) : Readable (.index e items) := by
  obtain ⟨c, t, whole, free, plain⟩ := h.head
  have text : (Expr.index e items).text.toList = e.text.toList ++ '[' :: (joined items ++ [']']) := by
    simp [Expr.text, joined]
  refine of_applied ⟨c, t ++ '[' :: (joined items ++ [']']), by rw [text, whole]; rfl, free,
    plain grouped⟩ (fun rest _ => ?_) fun depth cs rest deep blank after => ?_
  · rw [text, List.append_assoc]
    exact h.unsplat _ (.index _)
  · rw [text] at blank deep
    simp only [List.append_assoc, List.cons_append, List.nil_append] at blank
    simp only [List.length_append, List.length_cons] at deep
    have base := h.applied grouped depth cs _ (by omega) blank (.index _)
    have opening : (sign "[").Reads ('[' :: (joined items ++ ']' :: rest)) ()
        (joined items ++ ']' :: rest) := sign_reads rfl
    have closing : (sign "]").Reads (']' :: rest) () rest := sign_reads rfl
    have bracket : ']' ∈ [')', ']'] := by simp
    have small : (joined items).length < depth := by omega
    obtain read | ⟨-, none⟩ := items_or_none each small bracket rest
    · have more : (indices (nested depth)).Reads ('[' :: (joined items ++ ']' :: rest)) items rest :=
        opening.bind (read.bind (closing.to rfl))
      exact base.index more (by simp; omega)
    · exact absurd none some

/-- An expression in parentheses is a primary operand. -/
theorem parenthesized_reads {mid : List Char} (blank : skipBlank false cs = '(' :: mid)
    (h : (nested depth).expr.Reads mid e (')' :: rest)) :
    (parenthesized (nested depth)).Reads cs e rest := by
  have opening : (sign "(").Reads cs () mid := sign_reads blank
  have closing : (sign ")").Reads (')' :: rest) () rest := sign_reads rfl
  exact opening.bind (h.bind (closing.to rfl))

/-- An expression that is written in parentheses. -/
theorem of_parenthesized {t : List Char} (whole : e.text.toList = '(' :: (t ++ [')']))
    (read : ∀ depth rest, t.length ≤ depth →
      (Grammar.expression (nested depth)).Reads (t ++ ')' :: rest) e (')' :: rest)) :
    Readable e := by
  refine of_mark whole (by simp) fun depth cs rest deep blank _ => ?_
  rw [List.append_assoc] at blank
  rw [whole, List.length_cons, List.length_append] at deep
  obtain ⟨depth, rfl⟩ : ∃ d, depth = d + 1 := ⟨depth - 1, by omega⟩
  have inside : (parenthesized (nested (depth + 1))).Reads cs e rest :=
    parenthesized_reads blank (read depth rest (by omega))
  have constant : literal.Refuses cs :=
    literal_refuses blank (by decide) (by decide) (literalWord?_of_start (by decide))
  have bracket : (sign "[").Refuses cs := sign_refuses blank (by simp)
  exact primary_skips_columns rfl blank (by decide) (block_refuses blank (by simp))
    (call_refuses_of_name blank (name?_of_start (by decide)))
    (constant.map.orElse (bracket.bind.orElse (bracket.bind.orElse inside.orElse)))

theorem binary {op : BinaryOp} {left right : Expr} {dotted : Bool} (first : Readable left)
    (second : Readable right) (allowed : dotted → op ≠ .and ∧ op ≠ .or) :
    Readable (.binary op left right dotted) := by
  have text : (Expr.binary op left right dotted).text.toList
      = '(' :: (left.text.toList ++ (' ' :: (dotText dotted ++ op.symbol).toList
        ++ ' ' :: right.text.toList) ++ [')']) := by
    simp [Expr.text]
  refine of_parenthesized text fun depth rest deep => ?_
  simp only [List.length_append, List.length_cons] at deep
  have after : Ends (')' :: rest) := .mark rest (by simp)
  have blank := first.shown (' ' :: (dotText dotted ++ op.symbol).toList
    ++ ' ' :: (right.text.toList ++ ')' :: rest))
  have leftRead := (first.operand depth _ _ (by omega) blank (.operator op dotted _)).reads
  have rightRead := (second.operand depth (' ' :: (right.text.toList ++ ')' :: rest)) (')' :: rest)
    (by omega) (second.shown _) (.ends after)).reads
  have read := disjunction_pair allowed leftRead rightRead after.closed (by simp)
  simp only [List.append_assoc, List.cons_append]
  exact expression_of_disjunction read after.closed.question

theorem conditional {cond yes no : Expr} (test : Readable cond) (first : Readable yes)
    (second : Readable no) : Readable (.conditional cond yes no) := by
  have text : (Expr.conditional cond yes no).text.toList
      = '(' :: (cond.text.toList ++ ' ' :: '?' :: ' ' :: (yes.text.toList
        ++ ' ' :: ':' :: ' ' :: no.text.toList) ++ [')']) := by
    simp [Expr.text]
  refine of_parenthesized text fun depth rest deep => ?_
  simp only [List.length_append, List.length_cons] at deep
  have after : Ends (')' :: rest) := .mark rest (by simp)
  have condRead := disjunction_condition (test.operand depth _ _ (by omega)
    (test.shown (' ' :: '?' :: ' ' :: (yes.text.toList
      ++ ' ' :: ':' :: ' ' :: (no.text.toList ++ ')' :: rest)))) (.question _)).reads
  have question : (sign "?").Reads (' ' :: '?' :: ' ' :: (yes.text.toList
      ++ ' ' :: ':' :: ' ' :: (no.text.toList ++ ')' :: rest))) () (' ' :: (yes.text.toList
      ++ ' ' :: ':' :: ' ' :: (no.text.toList ++ ')' :: rest))) := sign_reads rfl
  have colon : (sign ":").Reads (' ' :: ':' :: ' ' :: (no.text.toList ++ ')' :: rest)) ()
      (' ' :: (no.text.toList ++ ')' :: rest)) := sign_reads rfl
  have yesRead : (nested depth).expr.Reads (' ' :: (yes.text.toList
      ++ ' ' :: ':' :: ' ' :: (no.text.toList ++ ')' :: rest))) yes
      (' ' :: ':' :: ' ' :: (no.text.toList ++ ')' :: rest)) :=
    first.expr (by omega) (first.shown _) (.colon _)
  have noRead : (nested depth).expr.Reads (' ' :: (no.text.toList ++ ')' :: rest)) no
      (')' :: rest) := second.expr (by omega) (second.shown _) after
  have branches := question.bind (f := fun _ => do
    let yes ← (nested depth).expr
    sign ":"
    let no ← (nested depth).expr
    return (yes, no)) (yesRead.bind (colon.bind (noRead.to rfl)))
  simp only [List.append_assoc, List.cons_append]
  exact condRead.bind (branches.optional.to rfl)

/-- An interpolation, of which a vector is written without parentheses. -/
theorem interpolated {inner : Expr} (h : Readable inner)
    (named : ∀ name, inner = .ident name → FreeName name)
    (parts : ∀ items, inner = .vector items → ∀ item ∈ items, Readable item)
    (flat : ∀ rows, inner ≠ .matrix rows) : Readable (.interpolated inner) := by
  by_cases bare : inner.interpolatesBare
  · have text : (Expr.interpolated inner).text.toList = '$' :: inner.text.toList := by
      simp [Expr.text, bare]
    refine of_mark text (by simp) fun depth cs rest deep blank after => ?_
    refine primary_interpolation rfl blank ?_
    rw [text, List.length_cons] at deep
    cases inner with
    | ident name =>
        have free := named name rfl
        obtain ⟨c, t, whole, start, -⟩ := toList_of_plain free.plain
        have here : skipBlank false (name.toList ++ rest) = c :: (t ++ rest) := by
          rw [whole]
          exact skipBlank_of_head (not_mem_of_all (by decide) start)
        have marks : c ∉ ['(', '[', '"'] := not_mem_of_all (by decide) start
        simp only [List.mem_cons, List.not_mem_nil, or_false, not_or] at marks
        obtain ⟨notParen, notBracket, quote⟩ := marks
        have paren : (sign "(").Refuses (name.toList ++ rest) :=
          sign_refuses here (by simp [Ne.symm notParen])
        have bracket : (sign "[").Refuses (name.toList ++ rest) :=
          sign_refuses here (by simp [Ne.symm notBracket])
        have digits : (token digits?).Refuses (name.toList ++ rest) :=
          token_refuses here (digits?_of_start (isDigit_of_isNameStart start))
        have quoted : (token quoted?).Refuses (name.toList ++ rest) :=
          token_refuses here (quoted?_of_head quote)
        have named : (token name?).Reads (name.toList ++ rest) name rest :=
          token_reads (by rw [here, whole]; rfl) (name?_append free.plain free.free after.apart)
        exact paren.bind.map.orElse (bracket.bind.map.orElse (bracket.bind.map.orElse
          (digits.bind.map.orElse (quoted.map.orElse named.map))))
    | matrix rows => exact absurd rfl (flat rows)
    | vector items =>
        have shape : (Expr.vector items).text.toList = '[' :: (joined items ++ [']']) := by
          simp [Expr.text, joined]
        rw [shape] at deep ⊢
        rw [List.length_cons, List.length_append] at deep
        have read : (Grammar.vector (nested depth)).Reads ('[' :: (joined items ++ ']' :: rest))
            (.vector items) rest := vector_reads (parts items rfl) (by omega) rfl
        have paren : (sign "(").Refuses ('[' :: (joined items ++ ']' :: rest)) :=
          token_refuses rfl rfl
        rw [List.cons_append, List.append_assoc]
        exact paren.bind.map.orElse read.map.orElse
    | _ => cases bare
  · have text : (Expr.interpolated inner).text.toList = '$' :: '(' :: (inner.text.toList ++ [')']) := by
      simp [Expr.text, bare]
    refine of_mark text (by simp) fun depth cs rest deep blank _ => ?_
    refine primary_interpolation rfl blank ?_
    rw [text, List.length_cons, List.length_cons, List.length_append] at deep
    have read : (nested depth).expr.Reads (inner.text.toList ++ ')' :: rest) inner (')' :: rest) :=
      h.expr (by omega) (h.shown _) (.mark rest (by simp))
    rw [List.cons_append, List.append_assoc]
    exact (parenthesized_reads rfl read).map.orElse

end Readable

end Grammar

end TablePlan
