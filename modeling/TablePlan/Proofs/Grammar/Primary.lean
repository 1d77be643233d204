import TablePlan.Proofs.Decimal.Spelling
import TablePlan.Proofs.Grammar.Following
import TablePlan.Proofs.Grammar.Lexemes

/-!
# Reading primary operands

The first character of a text decides which alternatives of a primary operand can read it; all the
others refuse. Constants and names are read as they are written.
-/

namespace TablePlan.Grammar

open Reader

/-! ### Names -/

/-- A name that is read as a name wherever it is written. -/
structure FreeName (name : String) : Prop where
  plain : isPlainName name
  free : name ∉ keywords
  apart : ¬ "begin".toList <+: name.toList

theorem FreeName.isName {name : String} (h : FreeName name) : IsName name :=
  ⟨h.plain, h.free⟩

/-- A column name that is read back as it is written. -/
structure FreeColumn (name : String) : Prop where
  simple : ∀ c ∈ name.toList, IsSimple c
  free : name ∉ keywords

/-! ### Primary operands by their first character -/

section

variable {inner : Nested} {cs t rest : List Char} {c : Char} {e : Expr}

theorem not_mem_of_all {p : Char → Bool} {cs : List Char} (none : ∀ c ∈ cs, p c = false) (h : p c) :
    c ∉ cs :=
  fun inside => by simp [none c inside] at h

/-- The characters that begin no expression. -/
def reserved : List Char := [' ', '\t', '\r', '\n', '#', '@', '=']

theorem skipBlank_of_head (h : c ∉ reserved) : skipBlank false (c :: t) = c :: t := by
  simp only [reserved, List.mem_cons, List.not_mem_nil, or_false, not_or] at h
  simp [skipBlank, h]

theorem directive?_of_head (h : c ≠ '@') : directive? (c :: t) = none := by
  unfold directive?
  split
  · rename_i same
    exact absurd (List.cons.inj same).1 h
  · rfl

theorem columnName?_of_head (h : c ≠ ':') : columnName? (c :: t) = none := by
  unfold columnName?
  split
  · rename_i same
    exact absurd (List.cons.inj same).1 h
  · rfl

theorem character?_of_head (h : c ≠ '\'') : character? (c :: t) = none := by
  unfold character?
  split
  · rename_i same
    exact absurd (List.cons.inj same).1 h
  · rename_i same
    exact absurd (List.cons.inj same).1 h
  · rfl

theorem operator?_of_head (h : c ∉ ['-', '!', '.']) (t : List Char) :
    operator? true unarySymbols (c :: t) = none := by
  simp only [List.mem_cons, List.not_mem_nil, or_false, not_or] at h
  obtain ⟨minus, bang, dot⟩ := h
  unfold operator?
  split
  · rename_i same
    split at same
    · rename_i dotted
      exact absurd (List.cons.inj dotted).1 dot
    · cases same
      simp [unarySymbols, expect?, Ne.symm minus, Ne.symm bang]

theorem length_skipBlank_le (inComment : Bool) (cs : List Char) :
    (skipBlank inComment cs).length ≤ cs.length := by
  induction cs generalizing inComment with
  | nil => exact Nat.le_refl _
  | cons c cs ih =>
      have later (b : Bool) : (skipBlank b cs).length ≤ (c :: cs).length :=
        Nat.le_succ_of_le (ih b)
      unfold skipBlank
      split
      · exact later _
      · split
        · exact later _
        · split
          · exact later _
          · exact Nat.le_refl _

theorem length_le_of_blank {text : List Char} (blank : skipBlank false cs = text ++ rest) :
    rest.length ≤ cs.length := by
  have less := length_skipBlank_le false cs
  rw [blank, List.length_append] at less
  omega

/-- After what is read fewer characters are left. -/
theorem length_lt_of_blank {text : List Char} (blank : skipBlank false cs = text ++ rest)
    (whole : text = c :: t) : rest.length < cs.length := by
  have less := length_skipBlank_le false cs
  rw [blank, whole, List.cons_append, List.length_cons, List.length_append] at less
  omega

theorem sign_refuses_of_head {word : String} (blank : skipBlank false cs = c :: t)
    (h : ∀ d ∈ word.toList.head?, d ≠ c) (some : word.toList ≠ []) : (sign word).Refuses cs := by
  refine sign_refuses blank fun begins => ?_
  cases whole : word.toList with
  | nil => exact some whole
  | cons d ds =>
      rw [whole] at begins h
      exact h d rfl (List.cons_prefix_cons.mp begins).1

/-- A call is read nowhere but at a name. -/
theorem call_refuses_of_name (blank : skipBlank false cs = t) (none : name? t = none) :
    (call inner).Refuses cs :=
  (token_refuses blank none).bind

/-- A block is read nowhere but where its first word is. -/
theorem block_refuses (blank : skipBlank false cs = t) (begun : ¬ "begin".toList <+: t) :
    (block inner).Refuses cs :=
  (sign_refuses blank begun).bind

/-- A primary operand that is neither a directive nor a block nor a call. -/
theorem primary_skips {later : Reader Expr}
    (is : primary inner = (directedOperand inner <|> block inner <|> call inner <|> later))
    (blank : skipBlank false cs = c :: t) (undirected : c ≠ '@')
    (unblocked : (block inner).Refuses cs) (uncalled : (call inner).Refuses cs)
    (h : later.Reads cs e rest) : (primary inner).Reads cs e rest := by
  have directive : (directedOperand inner).Refuses cs :=
    (token_refuses blank (directive?_of_head undirected)).bind
  rw [is]
  exact directive.orElse (unblocked.orElse (uncalled.orElse h))

/-- A primary operand that begins with none of the marks of columns. -/
theorem primary_skips_columns {later : Reader Expr}
    (is : primary inner = (directedOperand inner <|> block inner <|> call inner <|> interpolation inner
      <|> ((fun s => Expr.column (.name s)) <$> token columnName?) <|> later))
    (blank : skipBlank false cs = c :: t) (head : c ∉ ['@', '$', ':'])
    (unblocked : (block inner).Refuses cs) (uncalled : (call inner).Refuses cs)
    (h : later.Reads cs e rest) : (primary inner).Reads cs e rest := by
  simp only [List.mem_cons, List.not_mem_nil, or_false, not_or] at head
  obtain ⟨undirected, dollar, colon⟩ := head
  have interpolation : (interpolation inner).Refuses cs :=
    (sign_refuses_of_head blank (by simp [Ne.symm dollar]) (by simp)).bind
  have column : ((fun s => Expr.column (.name s)) <$> token columnName?).Refuses cs :=
    (token_refuses blank (columnName?_of_head colon)).map
  exact primary_skips is blank undirected unblocked uncalled
    (interpolation.orElse (column.orElse h))

/-- A primary operand that begins with the mark of an interpolation. -/
theorem primary_interpolation {choice : Reader Expr}
    (is : interpolation inner = (do sign "$"; choice)) (blank : skipBlank false cs = '$' :: t)
    (h : choice.Reads t e rest) : (primary inner).Reads cs e rest := by
  have read : (interpolation inner).Reads cs e rest := by
    rw [is]
    have dollar : (sign "$").Reads cs () t := sign_reads blank
    exact dollar.bind h
  exact primary_skips rfl blank (by decide) (block_refuses blank (by simp))
    (call_refuses_of_name blank (name?_of_start (by decide))) read.orElse

/-! ### Constants and names -/

theorem integer_reads {digits : List Char} (h : IsNumeral digits) (cs : List Char) :
    (integer digits).Reads cs (Int64.ofInt (Decimal.natOfDigits digits)) cs := by
  simp only [integer, if_pos h.fits]
  exact reads_pure _ cs

/-- Integers in the way they are written. -/
theorem literal_digits {digits : List Char} (h : IsNumeral digits)
    (blank : skipBlank false cs = digits ++ rest) (after : Touches rest) :
    literal.Reads cs (.int (Int64.ofInt (Decimal.natOfDigits digits))) rest := by
  have float : (token float?).Refuses cs :=
    token_refuses blank (float?_digits h (after.head_of (by decide)))
  have read : (token digits?).Reads cs digits rest :=
    token_reads blank (digits?_append h (after.head_of (by decide)))
  exact float.map.orElse ((read.bind (integer_reads h rest)).map.orElse)

/-- The digits of an integer from zero on stand for it. -/
theorem natOfDigits_int {i : Int64} (h : 0 ≤ i) :
    Int64.ofInt (Decimal.natOfDigits (Nat.toDigits 10 i.toInt.toNat)) = i := by
  have nonneg : 0 ≤ i.toInt := by simpa [Int64.le_iff_toInt_le] using h
  rw [Decimal.natOfDigits_toDigits, Int.toNat_of_nonneg nonneg, Int64.ofInt_toInt]

theorem literal_string {s : String} (blank : skipBlank false cs = (Text.quote s).toList ++ rest) :
    literal.Reads cs (.string (readBackText s)) rest := by
  have quoted : (token quoted?).Reads cs (readBackText s) rest :=
    token_reads blank (quoted?_quote s rest)
  rw [Text.toList_quote] at blank
  have float : (token float?).Refuses cs := token_refuses blank (float?_of_start (by decide))
  have digits : (token digits?).Refuses cs := token_refuses blank (digits?_of_start (by decide))
  exact float.map.orElse (digits.bind.map.orElse quoted.map.orElse)

/-- Where no number, quote or word begins there is no constant. -/
theorem literal_refuses (blank : skipBlank false cs = c :: t) (digit : c.isDigit = false)
    (quote : c ∉ ['"', '\'']) (word : literalWord? (c :: t) = none) : literal.Refuses cs := by
  simp only [List.mem_cons, List.not_mem_nil, or_false, not_or] at quote
  exact (token_refuses blank (float?_of_start digit)).map.or
    ((token_refuses blank (digits?_of_start digit)).bind.map.or
      ((token_refuses blank (quoted?_of_head quote.1)).map.or
        ((token_refuses blank (character?_of_head quote.2)).map.or (token_refuses blank word))))

theorem literalWord?_of_start (start : isNameStart c = false) : literalWord? (c :: t) = none := by
  rw [literalWord?, word?_of_start start]
  rfl

/-- Where a word begins there is no other constant. -/
theorem literal_of_word (blank : skipBlank false cs = c :: t) (start : isNameStart c) :
    (token float?).Refuses cs ∧ (token digits?).Refuses cs ∧ (token quoted?).Refuses cs
      ∧ (token character?).Refuses cs := by
  have digit := isDigit_of_isNameStart start
  exact ⟨token_refuses blank (float?_of_start digit), token_refuses blank (digits?_of_start digit),
    token_refuses blank (quoted?_of_head (by rintro rfl; cases start)),
    token_refuses blank (character?_of_head (by rintro rfl; cases start))⟩

/-- The words that are read as constants. -/
def readWords : List (String × Literal) :=
  [("true", .bool true), ("false", .bool false), ("missing", .missing), ("nothing", .missing)]

theorem keyword_of_constant {word : String} {v : Literal} (listed : (word, v) ∈ readWords) :
    isPlainName word ∧ word ∈ keywords ∧ ∀ rest, ¬ "begin".toList <+: word.toList ++ rest := by
  simp only [readWords, List.mem_cons, List.not_mem_nil, or_false, Prod.mk.injEq] at listed
  rcases listed with ⟨rfl, rfl⟩ | ⟨rfl, rfl⟩ | ⟨rfl, rfl⟩ | ⟨rfl, rfl⟩ <;>
    refine ⟨by decide, by decide, ?_⟩ <;>
    rintro rest ⟨_, same⟩ <;>
    cases same

theorem literal_word {word : String} {v : Literal} (listed : (word, v) ∈ readWords)
    (blank : skipBlank false cs = word.toList ++ rest) (after : Touches rest) :
    literal.Reads cs v rest := by
  have plain : isPlainName word ∧ literalWord? (word.toList ++ rest) = some (v, rest) := by
    simp only [readWords, List.mem_cons, List.not_mem_nil, or_false, Prod.mk.injEq] at listed
    rcases listed with ⟨rfl, rfl⟩ | ⟨rfl, rfl⟩ | ⟨rfl, rfl⟩ | ⟨rfl, rfl⟩ <;>
      refine ⟨by decide, ?_⟩ <;>
      rw [literalWord?, word?_append (by decide) after.apart] <;>
      rfl
  obtain ⟨c, t, whole, start, -⟩ := toList_of_plain plain.1
  rw [whole, List.cons_append] at blank
  obtain ⟨float, digits, quoted, character⟩ := literal_of_word blank start
  refine float.map.orElse (digits.bind.map.orElse (quoted.map.orElse (character.map.orElse ?_)))
  exact token_reads blank (by rw [← List.cons_append, ← whole, plain.2])

/-- A numeral is a primary operand. -/
theorem primary_digits {digits : List Char} (h : IsNumeral digits)
    (blank : skipBlank false cs = digits ++ rest) (after : Touches rest) :
    (primary inner).Reads cs (.literal (.int (Int64.ofInt (Decimal.natOfDigits digits)))) rest := by
  have constant := literal_digits h blank after
  obtain ⟨c, t, rfl, digit⟩ := h.exists_cons
  have start := not_nameStart_of_isDigit digit
  refine primary_skips_columns rfl blank (not_mem_of_all (by decide) digit)
    (block_refuses blank fun begins => ?_) (call_refuses_of_name blank (name?_of_start start))
    constant.map.orElse
  rw [← (List.cons_prefix_cons.mp begins).1] at start
  cases start

/-- A text between quotes is a primary operand. -/
theorem primary_string {s : String} (blank : skipBlank false cs = (Text.quote s).toList ++ rest) :
    (primary inner).Reads cs (.literal (.string (readBackText s))) rest := by
  have constant : literal.Reads cs (.string (readBackText s)) rest := literal_string blank
  rw [Text.toList_quote] at blank
  exact primary_skips_columns rfl blank (by decide) (block_refuses blank (by simp))
    (call_refuses_of_name blank (name?_of_start (by decide))) constant.map.orElse

/-- What a column is written as begins with a mark of its own. -/
theorem exists_columnText (name : String) : ∃ t, (ColumnIdent.name name).text.toList = ':' :: t := by
  rw [ColumnIdent.text]
  split
  · exact ⟨name.toList, by simp⟩
  · exact ⟨(Text.quote name).toList, by simp⟩

/-- A column is a primary operand unless its name is a keyword. -/
theorem primary_column {name : String} (free : name ∉ keywords)
    (blank : skipBlank false cs = (ColumnIdent.name name).text.toList ++ rest)
    (apart : ∀ c ∈ rest.head?, isNameChar c = false) :
    (primary inner).Reads cs (.column (.name (readBackText name))) rest := by
  have column : (token columnName?).Reads cs (readBackText name) rest :=
    token_reads blank (columnName?_text free apart)
  obtain ⟨t, whole⟩ := exists_columnText name
  rw [whole] at blank
  have interpolation : (interpolation inner).Refuses cs := (sign_refuses blank (by simp)).bind
  exact primary_skips rfl blank (by decide) (block_refuses blank (by simp))
    (call_refuses_of_name blank (name?_of_start (by decide)))
    (interpolation.orElse column.map.orElse)

/-- What comes next belongs neither to a name nor to a call of it. -/
structure Detached (rest : List Char) : Prop where
  apart : ∀ c ∈ rest.head?, isNameChar c = false
  uncalled : ∃ dot mid, (optional (sign ".")).Reads rest dot mid ∧ (sign "(").Refuses mid

theorem Touches.detached (h : Touches rest) : Detached rest :=
  ⟨h.apart, h.not_call⟩

/-- A name that no parenthesis follows is not read as a call. -/
theorem call_refuses {name : String} (blank : skipBlank false cs = name.toList ++ rest)
    (h : IsName name) (after : Detached rest) : (call inner).Refuses cs := by
  obtain ⟨dot, mid, read, stop⟩ := after.uncalled
  have named : (token name?).Reads cs name rest :=
    token_reads blank (name?_append h.plain h.free after.apart)
  exact named.bind_refuses (read.bind_refuses stop.bind)

theorem FreeName.not_begin {name : String} (h : FreeName name) (rest : List Char)
    (apart : ∀ c ∈ rest.head?, isNameChar c = false) : ¬ "begin".toList <+: name.toList ++ rest := by
  intro begins
  obtain inside | short := List.prefix_or_prefix_of_prefix begins (List.prefix_append _ rest)
  · exact h.apart inside
  · obtain ⟨more, whole⟩ := short
    rw [← whole, List.prefix_append_right_inj] at begins
    cases more with
    | nil => exact h.apart ⟨[], by rw [← whole]; simp⟩
    | cons c more =>
        obtain ⟨later, rfl⟩ := begins
        have letter : c ∈ "begin".toList := by rw [← whole]; simp
        have all : ∀ c ∈ "begin".toList, isNameChar c = true := by decide
        exact absurd (all c letter) (by simp [apart c rfl])

/-- A name where no block is read. -/
theorem primary_ident {name : String} (blank : skipBlank false cs = name.toList ++ rest)
    (h : IsName name) (unblocked : (block inner).Refuses cs) (after : Detached rest) :
    (primary inner).Reads cs (.ident name) rest := by
  have uncalled : (call inner).Refuses cs := call_refuses blank h after
  have named : (token name?).Reads cs name rest :=
    token_reads blank (name?_append h.plain h.free after.apart)
  obtain ⟨c, t, whole, start, -⟩ := toList_of_plain h.plain
  have word : literalWord? (name.toList ++ rest) = none := by
    rw [literalWord?, word?_append h.plain after.apart]
    have free := h.free
    simp only [keywords, List.mem_cons, List.not_mem_nil, or_false, not_or] at free
    simp [free]
  rw [whole, List.cons_append] at blank word
  have constant : literal.Refuses cs :=
    literal_refuses blank (isDigit_of_isNameStart start) (not_mem_of_all (by decide) start) word
  have vector : (vector inner).Refuses cs :=
    (sign_refuses_of_head blank (by rintro d first rfl; cases first; cases start) (by simp)).bind
  have matrix : (matrix inner).Refuses cs :=
    (sign_refuses_of_head blank (by rintro d first rfl; cases first; cases start) (by simp)).bind
  have parenthesized : (parenthesized inner).Refuses cs :=
    (sign_refuses_of_head blank (by rintro d first rfl; cases first; cases start) (by simp)).bind
  refine primary_skips_columns rfl blank ?_ unblocked uncalled ?_
  · rintro inside
    simp only [List.mem_cons, List.not_mem_nil, or_false] at inside
    rcases inside with rfl | rfl | rfl <;> cases start
  · exact constant.map.orElse (vector.orElse (matrix.orElse (parenthesized.orElse named.map)))

/-- A word for a constant is a primary operand. -/
theorem primary_constant {word : String} {v : Literal} (listed : (word, v) ∈ readWords)
    (blank : skipBlank false cs = word.toList ++ rest) (after : Touches rest) :
    (primary inner).Reads cs (.literal v) rest := by
  obtain ⟨plain, keyword, begun⟩ := keyword_of_constant listed
  have uncalled : (call inner).Refuses cs :=
    call_refuses_of_name blank (name?_keyword plain keyword after.apart)
  have unblocked : (block inner).Refuses cs := block_refuses blank (begun rest)
  have constant : literal.Reads cs v rest := literal_word listed blank after
  obtain ⟨c, t, whole, start, -⟩ := toList_of_plain plain
  rw [whole] at blank
  exact primary_skips_columns rfl blank (not_mem_of_all (by decide) start) unblocked uncalled
    constant.map.orElse

theorem primary_name {name : String} (blank : skipBlank false cs = name.toList ++ rest)
    (h : FreeName name) (after : Detached rest) : (primary inner).Reads cs (.ident name) rest :=
  primary_ident blank h.isName (block_refuses blank (h.not_begin rest after.apart)) after

end

/-! ### Items between commas -/

section

variable {α : Type} {item : Reader α} {written : α → List Char} {cs rest : List Char}

/-- After items between commas comes either the end or a comma. -/
theorem ends_commas (others : List α) (after : Ends rest) :
    Ends ((others.flatMap fun a => ',' :: ' ' :: written a) ++ rest) := by
  cases others with
  | nil => exact after
  | cons a others => exact .mark _ (by simp)

/-- Items after commas, each read where one may follow. -/
theorem commas_chain {others : List α}
    (each : ∀ a ∈ others, ∀ cs rest, skipBlank false cs = written a ++ rest → Ends rest →
      item.Reads cs a rest)
    (shown : ∀ a ∈ others, ∀ rest, skipBlank false (written a ++ rest) = written a ++ rest)
    (after : Ends rest) : Chain (do sign ","; item)
      ((others.flatMap fun a => ',' :: ' ' :: written a) ++ rest) others rest := by
  induction others with
  | nil => exact .nil rest
  | cons a others ih =>
      rw [List.forall_mem_cons] at each shown
      rw [List.flatMap_cons, List.append_assoc]
      have comma : (sign ",").Reads
          (',' :: ' ' :: written a ++ ((others.flatMap fun a => ',' :: ' ' :: written a) ++ rest)) ()
          (' ' :: written a ++ ((others.flatMap fun a => ',' :: ' ' :: written a) ++ rest)) :=
        sign_reads rfl
      refine .cons (comma.bind (each.1 _ _ (shown.1 _) (ends_commas others after))) ?_
        (ih each.2 shown.2)
      simp only [List.length_append, List.length_cons]
      omega

/-- Items between commas. -/
theorem commaItems_reads {first : α} {others : List α}
    (each : ∀ a ∈ first :: others, ∀ cs rest, skipBlank false cs = written a ++ rest → Ends rest →
      item.Reads cs a rest)
    (shown : ∀ a ∈ others, ∀ rest, skipBlank false (written a ++ rest) = written a ++ rest)
    (blank : skipBlank false cs
      = written first ++ (others.flatMap fun a => ',' :: ' ' :: written a) ++ rest)
    (after : Ends rest) (stop : (sign ",").Refuses rest) :
    (commaItems item).Reads cs (first :: others) rest := by
  rw [List.forall_mem_cons] at each
  rw [List.append_assoc] at blank
  exact (each.1 _ _ blank (ends_commas others after)).bind
    (((commas_chain each.2 shown after).many stop.bind).to rfl)

end

/-! ### Where no expression begins -/

section

variable {cs t rest : List Char} {c : Char}

/-- A character where no expression can begin. -/
theorem primary_refuses {inner : Nested} (blank : skipBlank false cs = c :: t)
    (head : c ∉ ['@', '$', '[', '(']) (column : (token columnName?).Refuses cs) (quote : c ∉ ['"', '\''])
    (digit : c.isDigit = false) (unblocked : (block inner).Refuses cs)
    (unnamed : name? (c :: t) = none) (word : literalWord? (c :: t) = none) :
    (primary inner).Refuses cs := by
  simp only [List.mem_cons, List.not_mem_nil, or_false, not_or] at head
  obtain ⟨undirected, dollar, bracket, paren⟩ := head
  have directive : (directedOperand inner).Refuses cs :=
    (token_refuses blank (directive?_of_head undirected)).bind
  have interpolation : (interpolation inner).Refuses cs :=
    (sign_refuses_of_head blank (by simp [Ne.symm dollar]) (by simp)).bind
  have constant : literal.Refuses cs := literal_refuses blank digit quote word
  have vector : (vector inner).Refuses cs :=
    (sign_refuses_of_head blank (by simp [Ne.symm bracket]) (by simp)).bind
  have matrix : (matrix inner).Refuses cs :=
    (sign_refuses_of_head blank (by simp [Ne.symm bracket]) (by simp)).bind
  have parenthesized : (parenthesized inner).Refuses cs :=
    (sign_refuses_of_head blank (by simp [Ne.symm paren]) (by simp)).bind
  have named : (token name?).Refuses cs := token_refuses blank unnamed
  exact directive.or (unblocked.or ((call_refuses_of_name blank unnamed).or (interpolation.or
    (column.map.or (constant.map.or (vector.or (matrix.or (parenthesized.or named.map))))))))

/-- A primary operand without operators before it is an expression where an expression ends. -/
theorem expr_of_primary {depth : Nat} {e : Expr} (plain : unaryOperator.Refuses cs)
    (read : (primary (nested depth)).Reads cs e rest) (after : Ends rest) :
    (nested (depth + 1)).expr.Reads cs e rest := by
  have operand : ReadsOperand (nested depth) cs e rest :=
    .indexed ((ReadsApplied.primary read).indexed (Follows.ends after).not_index) plain
  exact expression_of_operand operand.reads after.closed

theorem expr_refuses_of_primary (none : ∀ inner, (primary inner).Refuses cs)
    (plain : unaryOperator.Refuses cs) (depth : Nat) : (nested depth).expr.Refuses cs := by
  cases depth with
  | zero => exact refuses_failure cs
  | succ depth => exact refuses_expression (refuses_operand plain (none _))

/-- No expression begins at a closing bracket. -/
theorem expr_refuses_closing (closing : c ∈ [')', ']']) (blank : skipBlank false cs = c :: t)
    (depth : Nat) : (nested depth).expr.Refuses cs := by
  simp only [List.mem_cons, List.not_mem_nil, or_false] at closing
  have none (inner : Nested) : (primary inner).Refuses cs := by
    rcases closing with rfl | rfl <;>
      exact primary_refuses blank (by decide) (token_refuses blank rfl) (by decide) (by decide)
        (block_refuses blank (by simp)) (name?_of_start (by decide)) (literalWord?_of_start (by decide))
  refine expr_refuses_of_primary none (token_refuses blank ?_) depth
  rcases closing with rfl | rfl <;> rfl

/-- No expression begins at the end of a block. -/
theorem expr_refuses_end (blank : skipBlank false cs = "end".toList ++ rest)
    (apart : ∀ c ∈ rest.head?, isNameChar c = false) (depth : Nat) :
    (nested depth).expr.Refuses cs := by
  have unnamed : name? ("end".toList ++ rest) = none :=
    name?_keyword (by decide) (by decide) apart
  have word : literalWord? ("end".toList ++ rest) = none := by
    rw [literalWord?, word?_append (by decide) apart]
    rfl
  refine expr_refuses_of_primary (fun inner => ?_) (token_refuses blank rfl) depth
  exact primary_refuses blank (by decide) (token_refuses blank rfl) (by decide) (by decide)
    (block_refuses blank (by rintro ⟨_, same⟩; cases same)) unnamed word

end

end TablePlan.Grammar
