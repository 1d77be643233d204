import TablePlan.Proofs.Expr.Legible

/-!
# Legible expressions are determined by their text

The text of a legible expression can be taken apart from the left: its first character and the word
it begins with tell what form it has, and every part of it ends where a bracket, a separator or a
blank follows.
-/

namespace TablePlan.Expr

open Text

/-! ### The parts of a text -/

/-- Items with a separator between neighbours, as they are written. -/
def joined (separator : String) (items : List Expr) : List Char :=
  (joinWith separator (items.map text)).toList

/-- A row of a matrix as it is written. -/
def rowText (row : List Expr) : String :=
  joinWith " " (row.map text)

/-- A field of a record as it is written. -/
def fieldText (field : String × Expr) : String :=
  field.1 ++ " = " ++ field.2.text

/-- Indices as they are written after what is indexed. -/
def groupsText (groups : List (List Expr)) : List Char :=
  groups.flatMap fun group => '[' :: (joined ", " group ++ [']'])

section

variable (r : List Char)

theorem text_call (func : String) (args : List Expr) (dotted : Bool) :
    (call func args dotted).text.toList ++ r
      = (func ++ dotText dotted).toList ++ '(' :: (joined ", " args ++ ')' :: r) := by
  simp [text, itemTexts_eq, joined]

theorem text_binary (op : BinaryOp) (left right : Expr) (dotted : Bool) :
    (binary op left right dotted).text.toList ++ r = '(' :: (left.text.toList ++ ' ' ::
      ((dotText dotted ++ op.symbol).toList ++ ' ' :: (right.text.toList ++ ')' :: r))) := by
  simp [text]

theorem text_conditional (cond yes no : Expr) :
    (conditional cond yes no).text.toList ++ r = '(' :: (cond.text.toList ++ ' ' ::
      (['?'] ++ ' ' :: (yes.text.toList ++ ' ' :: ':' :: ' ' :: (no.text.toList ++ ')' :: r)))) := by
  simp [text]

theorem text_vector (items : List Expr) :
    (vector items).text.toList ++ r = '[' :: (joined ", " items ++ ']' :: r) := by
  simp [text, itemTexts_eq, joined]

theorem rowTexts_eq (rows : List (List Expr)) : rowTexts rows = rows.map rowText := by
  induction rows with
  | nil => rfl
  | cons row rest ih => rw [rowTexts, ih, itemTexts_eq, List.map_cons, rowText]

theorem text_matrix (rows : List (List Expr)) : (matrix rows).text.toList ++ r
    = '[' :: ((joinWith "; " (rows.map rowText)).toList ++ ']' :: r) := by
  simp [text, rowTexts_eq]

theorem fieldTexts_eq (fields : List (String × Expr)) :
    fieldTexts fields = fields.map fieldText := by
  induction fields with
  | nil => rfl
  | cons field rest ih =>
      obtain ⟨name, value⟩ := field
      rw [fieldTexts, ih, List.map_cons, fieldText]

theorem text_record (fields : List (String × Expr)) : (record fields).text.toList ++ r
    = '(' :: ';' :: ' ' :: ((joinWith ", " (fields.map fieldText)).toList ++ ')' :: r) := by
  simp [text, fieldTexts_eq]

theorem text_block (statements : List Expr) : (block statements).text.toList ++ r
    = "begin".toList ++ ' ' :: (joined "; " statements ++ ' ' :: 'e' :: 'n' :: 'd' :: r) := by
  simp [text, itemTexts_eq, joined]

theorem text_unary (op : UnaryOp) (operand : Expr) (dotted : Bool) :
    (unary op operand dotted).text.toList ++ r
      = (dotText dotted ++ op.symbol).toList ++ (operand.text.toList ++ r) := by
  simp [text]

theorem text_indexed (base : Expr) (groups : List (List Expr)) :
    (groups.foldl index base).text.toList ++ r
      = base.text.toList ++ (groupsText groups ++ r) := by
  induction groups generalizing base with
  | nil => rfl
  | cons group groups ih =>
      rw [List.foldl_cons, ih]
      simp [text, itemTexts_eq, joined, groupsText]

theorem text_assign {targets : List Expr} (some : targets ≠ []) (value : Expr) :
    (assign (assigned targets) value).text.toList ++ r
      = joined ", " targets ++ ' ' :: '=' :: ' ' :: (value.text.toList ++ r) := by
  have several : (assigned targets).text.toList = joined ", " targets := by
    cases targets with
    | nil => exact absurd rfl some
    | cons target targets =>
        cases targets with
        | nil => rfl
        | cons => simp [assigned, text, itemTexts_eq, joined]
  rw [text, String.toList_append, String.toList_append, several]
  simp

end

/-! ### What stands before and after -/

/-- The characters that an expression can stand before. -/
def closings : List Char := [')', ']', ',', ';', ' ']

/-- What can follow a value: something that closes or parts, or nothing. -/
def Stops (rest : List Char) : Prop :=
  ∀ c ∈ rest.head?, c ∈ closings

/-- What can follow an operand: an index as well. -/
def Touches (rest : List Char) : Prop :=
  ∀ c ∈ rest.head?, c = '[' ∨ c ∈ closings

/-- What can follow a statement. -/
def Closes (rest : List Char) : Prop :=
  (∃ t, rest = ';' :: t) ∨ ∃ t, rest = ' ' :: 'e' :: t

theorem Stops.touches {rest : List Char} (h : Stops rest) : Touches rest :=
  fun c first => .inr (h c first)

theorem Closes.stops {rest : List Char} (h : Closes rest) : Stops rest := by
  obtain ⟨t, rfl⟩ | ⟨t, rfl⟩ := h <;> rintro c ⟨⟩ <;> decide

theorem touches_groups (groups : List (List Expr)) {r : List Char} (h : Stops r) :
    Touches (groupsText groups ++ r) := by
  cases groups with
  | nil => exact h.touches
  | cons group groups =>
      rintro c ⟨⟩
      exact .inl rfl

/-- What can follow an expression where it is written. -/
def Layer.stop : Layer → List Char → Prop
  | .atom => Touches
  | .value | .target => Stops
  | .statement => Closes

/-- The forms that the first character of a text tells apart. -/
inductive Opening where
  | word
  | quote
  | paren
  | bracket
  | sign

/-- The form of an expression. -/
def opening : Expr → Opening
  | literal (.string _) => .quote
  | binary .. | conditional .. | record _ => .paren
  | vector _ | matrix _ => .bracket
  | unary .. => .sign
  | index base _ => base.opening
  | _ => .word

/-- The form of a text that begins with a character. -/
def openingOf (c : Char) : Opening :=
  if c = '"' then .quote
  else if c = '(' then .paren
  else if c = '[' then .bracket
  else if c = '-' ∨ c = '!' ∨ c = '.' then .sign
  else .word

theorem opening_indexed (base : Expr) (groups : List (List Expr)) :
    (groups.foldl index base).opening = base.opening := by
  induction groups generalizing base with
  | nil => rfl
  | cons group groups ih => rw [List.foldl_cons, ih, opening]

/-- The first character of a word or a number. -/
def IsWordStart (c : Char) : Prop :=
  isNameStart c ∨ c = '%' ∨ c.isDigit

instance (c : Char) : Decidable (IsWordStart c) :=
  inferInstanceAs (Decidable (_ ∨ _ ∨ _))

theorem IsWordStart.opens {c : Char} (h : IsWordStart c) :
    c ∉ closings ∧ openingOf c = .word := by
  have marks : ∀ c ∈ ['"', '(', '[', '-', '!', '.'] ++ closings, ¬ IsWordStart c := by decide
  have other (d : Char) (mark : d ∈ ['"', '(', '[', '-', '!', '.'] ++ closings) : c ≠ d := by
    rintro rfl
    exact marks c mark h
  refine ⟨fun closing => marks c (List.mem_append_right _ closing) h, ?_⟩
  rw [openingOf, if_neg (other _ (by decide)), if_neg (other _ (by decide)),
    if_neg (other _ (by decide)), if_neg]
  simp [other '-' (by decide), other '!' (by decide), other '.' (by decide)]

theorem IsWord.start {name : String} (h : IsWord name) :
    ∃ c t, name.toList = c :: t ∧ IsWordStart c := by
  obtain ⟨c, t, whole, start⟩ := h.starts
  exact ⟨c, t, whole, start.imp_right .inl⟩

theorem Leaf.start {s : Spelling} {e : Expr} (h : Leaf s e) :
    ∃ c t, e.text.toList = c :: t ∧ IsWordStart c := by
  cases h with
  | int h =>
      obtain ⟨c, t, whole, digit⟩ := Decimal.exists_digit (Int64.toInt _).toNat
      exact ⟨c, t, (text_of_int h).trans whole, .inr (.inr digit)⟩
  | float h =>
      obtain ⟨⟨c, t, whole, digit⟩, -⟩ := Decimal.literal_spelled h
      exact ⟨c, t, whole, .inr (.inr digit)⟩
  | constant listed =>
      simp only [writtenWords, List.mem_cons, List.not_mem_nil, or_false, Prod.mk.injEq] at listed
      rcases listed with ⟨-, rfl⟩ | ⟨-, rfl⟩ | ⟨-, rfl⟩ <;> exact ⟨_, _, rfl, by decide⟩
  | ident h => exact h.start
  | splat h =>
      obtain ⟨c, t, whole, start⟩ := h.start
      exact ⟨c, t ++ "...".toList, by rw [text, String.toList_append, whole]; rfl, start⟩

/-- The first character of an expression does not close anything, and it tells the form of an
expression that is no statement. -/
def Opens (layer : Layer) (e : Expr) : Prop :=
  ∃ c t, e.text.toList = c :: t ∧ c ∉ closings ∧ (layer ≠ .statement → openingOf c = e.opening)

theorem Leaf.opens {layer : Layer} {s : Spelling} {e : Expr} (h : Leaf s e)
    (word : e.opening = .word) : Opens layer e := by
  obtain ⟨c, t, whole, start⟩ := h.start
  exact ⟨c, t, whole, start.opens.1, fun _ => start.opens.2.trans word.symm⟩

theorem opens_of_mark {layer : Layer} {e : Expr} {c : Char} {t : List Char}
    (whole : e.text.toList ++ [] = c :: t) (outside : c ∉ closings) (form : openingOf c = e.opening) :
    Opens layer e :=
  ⟨c, t, by simpa using whole, outside, fun _ => form⟩

theorem Legible.opens {layer : Layer} {e : Expr} (h : Legible layer e) : Opens layer e := by
  induction h with
  | missing => exact Leaf.opens (.constant (.head _)) rfl
  | bool b =>
      cases b
      · exact Leaf.opens (.constant (.tail _ (.tail _ (.head _)))) rfl
      · exact Leaf.opens (.constant (.tail _ (.head _))) rfl
  | int h => exact (Leaf.int h).opens rfl
  | float h => exact (Leaf.float h).opens rfl
  | string s => exact ⟨'"', _, toList_quote s, by decide, fun _ => rfl⟩
  | ident h => exact (Leaf.ident h).opens rfl
  | @call func args named _ dotted =>
      obtain ⟨c, t, whole, start⟩ := named.start
      have text := text_call [] func args dotted
      rw [String.toList_append, whole] at text
      exact opens_of_mark text start.opens.1 start.opens.2
  | binary => exact opens_of_mark (text_binary ..) (by decide) rfl
  | conditional => exact opens_of_mark (text_conditional ..) (by decide) rfl
  | vector => exact opens_of_mark (text_vector ..) (by decide) rfl
  | matrix => exact opens_of_mark (text_matrix ..) (by decide) rfl
  | record => exact opens_of_mark (text_record ..) (by decide) rfl
  | block => exact opens_of_mark (c := 'b') (text_block ..) (by decide) rfl
  | @indexed base groups _ _ ih _ =>
      obtain ⟨c, t, whole, outside, form⟩ := ih
      have text := text_indexed [] base groups
      rw [whole] at text
      exact opens_of_mark text outside (by rw [form nofun, opening_indexed])
  | unary op _ dotted =>
      cases op <;> cases dotted <;> exact opens_of_mark (text_unary ..) (by decide) rfl
  | item _ ih =>
      obtain ⟨c, t, whole, outside, form⟩ := ih
      exact ⟨c, t, whole, outside, fun _ => form nofun⟩
  | splat h => exact (Leaf.splat h).opens rfl
  | plain _ ih =>
      obtain ⟨c, t, whole, outside, -⟩ := ih
      exact ⟨c, t, whole, outside, fun is => absurd rfl is⟩
  | @assign targets value some _ _ each _ =>
      obtain ⟨target, targets, rfl⟩ := List.exists_cons_of_ne_nil some
      obtain ⟨c, t, whole, outside, -⟩ := each target List.mem_cons_self
      have text := text_assign [] some value
      rw [joined, List.map_cons, toList_joinWith, whole, List.append_nil] at text
      exact ⟨c, _, text, outside, fun is => absurd rfl is⟩

/-! ### Parts -/

/-- An expression is determined by its text where it is written. -/
def Determined (layer : Layer) (e : Expr) : Prop :=
  Determines text (Legible layer) layer.stop Eq e

section

variable {e e' : Expr} {r r' : List Char}

/-- Expressions whose texts begin in the same place have the same form. -/
theorem opening_of_same {layer : Layer} (h : Legible layer e) (h' : Legible layer e')
    (valued : layer ≠ .statement) (same : e.text.toList ++ r = e'.text.toList ++ r') :
    e.opening = e'.opening := by
  obtain ⟨c, t, whole, -, form⟩ := h.opens
  obtain ⟨c', t', whole', -, form'⟩ := h'.opens
  rw [whole, whole'] at same
  rw [← form valued, ← form' valued, (List.cons.inj same).1]

/-- Separators between expressions, and what closes them. -/
theorem separates (layer : Layer) {separator : String} {closes : List Char → Prop}
    (stops : ∀ r, layer.stop (separator.toList ++ r)) (ends : ∀ r, closes r → layer.stop r)
    (apart : ∀ r, ¬ closes (separator.toList ++ r))
    (marked : ∀ r, closes r → ∃ c t, r = c :: t ∧ c ∈ closings) :
    Separates text (Legible layer) layer.stop separator closes where
  stops := stops
  ends := ends
  apart := apart
  unclosed e h r closed := by
    obtain ⟨c, t, whole, outside, -⟩ := h.opens
    obtain ⟨c', t', is, mark⟩ := marked _ closed
    rw [whole] at is
    exact outside ((List.cons.inj is).1 ▸ mark)

/-- Values between commas up to a closing bracket. -/
theorem separates_values {bracket : Char} (closing : bracket ∈ [')', ']']) :
    Separates text (Legible .value) Stops ", " fun r => ∃ t, r = bracket :: t := by
  have marks : ∀ c ∈ [')', ']'], c ∈ closings ∧ c ≠ ',' := by decide
  refine separates .value ?_ ?_ ?_ ?_
  · rintro r c ⟨⟩
    decide
  · rintro _ ⟨t, rfl⟩ c ⟨⟩
    exact (marks bracket closing).1
  · rintro r ⟨t, is⟩
    exact (marks bracket closing).2 (List.cons.inj is).1.symm
  · rintro _ ⟨t, rfl⟩
    exact ⟨_, _, rfl, (marks bracket closing).1⟩

theorem values_determined {items items' : List Expr} {bracket : Char}
    (closing : bracket ∈ [')', ']']) (own : ∀ item ∈ items, Legible .value item)
    (each : ∀ item ∈ items, Determined .value item) (others : ∀ item ∈ items', Legible .value item)
    (same : joined ", " items ++ bracket :: r = joined ", " items' ++ bracket :: r') :
    items = items' ∧ r = r' := by
  obtain ⟨parts, rest⟩ := (separates_values closing).joined_determines
    (fun item inside => ⟨own item inside, each item inside⟩) others ⟨r, rfl⟩ ⟨r', rfl⟩ same
  rw [List.forall₂_eq_eq_eq] at parts
  exact ⟨parts, (List.cons.inj rest).2⟩

/-! ### Words -/

theorem Touches.delimits (h : Touches r) : ∀ c ∈ r.head?, ¬ c ∉ delimiters := by
  intro c first outside
  have marks : ∀ c ∈ closings, c ∈ delimiters := by decide
  obtain rfl | closing := h c first
  · exact outside (by decide)
  · exact outside (marks c closing)

/-- A legible operand that begins with a word. -/
theorem Legible.word_cases (h : Legible .atom e) (word : e.opening = .word) :
    (∃ s, Leaf s e)
      ∨ (∃ func args dotted, e = .call func args dotted ∧ IsWord func
        ∧ ∀ arg ∈ args, Legible .value arg)
      ∨ ∃ statements, e = .block statements ∧ ∀ s ∈ statements, Legible .statement s := by
  cases h with
  | missing => exact .inl ⟨_, .constant (.head _)⟩
  | bool b =>
      cases b
      · exact .inl ⟨_, .constant (.tail _ (.tail _ (.head _)))⟩
      · exact .inl ⟨_, .constant (.tail _ (.head _))⟩
  | int h => exact .inl ⟨_, .int h⟩
  | float h => exact .inl ⟨_, .float h⟩
  | ident h => exact .inl ⟨_, .ident h⟩
  | call named parts dotted => exact .inr (.inl ⟨_, _, _, rfl, named, parts⟩)
  | block parts => exact .inr (.inr ⟨_, rfl, parts⟩)
  | _ => cases word

theorem Leaf.opening {s : Spelling} (h : Leaf s e) : e.opening = .word := by
  cases h with
  | constant listed =>
      simp only [writtenWords, List.mem_cons, List.not_mem_nil, or_false, Prod.mk.injEq] at listed
      rcases listed with ⟨-, rfl⟩ | ⟨-, rfl⟩ | ⟨-, rfl⟩ <;> rfl
  | _ => rfl

theorem no_delimiter_call {func : String} (named : IsWord func) (dotted : Bool) :
    ∀ c ∈ (func ++ dotText dotted).toList, c ∉ delimiters := by
  rw [String.toList_append]
  refine List.forall_mem_append.mpr ⟨named.no_delimiter, ?_⟩
  cases dotted <;> decide

/-- The name of a function and the dot after it. -/
theorem function_determined {func func' : String} {dotted dotted' : Bool} (named : IsWord func)
    (named' : IsWord func')
    (same : (func ++ dotText dotted).toList = (func' ++ dotText dotted').toList) :
    func = func' ∧ dotted = dotted' := by
  have dots := named.no_dot
  have dots' := named'.no_dot
  rw [String.toList_append, String.toList_append] at same
  cases dotted <;> cases dotted' <;>
    simp only [dotText, Bool.false_eq_true, if_false, if_true, String.toList_empty,
      List.append_nil] at same
  · exact ⟨String.toList_inj.mp same, rfl⟩
  · rw [same] at dots
    exact absurd (List.mem_append_right _ (by decide)) dots
  · rw [← same] at dots'
    exact absurd (List.mem_append_right _ (by decide)) dots'
  · exact ⟨String.toList_inj.mp (List.append_cancel_right same), rfl⟩

/-- A leaf is told apart from every other operand. -/
theorem Leaf.determines {s : Spelling} (leaf : Leaf s e) (h' : Legible .atom e')
    (word : e'.opening = .word) (after : Touches r) (after' : Touches r')
    (same : e.text.toList ++ r = e'.text.toList ++ r') : e = e' ∧ r = r' := by
  obtain ⟨s', leaf'⟩ | ⟨func, args, dotted, rfl, named, -⟩ | ⟨statements, rfl, -⟩ :=
    h'.word_cases word
  · obtain ⟨texts, rest⟩ := span_determines leaf.no_delimiter leaf'.no_delimiter after.delimits
      after'.delimits same
    exact ⟨leaf.eq_of_text leaf' (String.toList_inj.mp texts), rest⟩
  · rw [text_call] at same
    obtain ⟨-, rfl⟩ := span_determines leaf.no_delimiter (no_delimiter_call named dotted)
      after.delimits (by simp [delimiters]) same
    exact absurd (after '(' rfl) (by decide)
  · rw [text_block] at same
    obtain ⟨texts, -⟩ := span_determines leaf.no_delimiter (by decide) after.delimits
      (by simp [delimiters]) same
    exact absurd (String.toList_inj.mp texts) leaf.not_begin

theorem determined_leaf {s : Spelling} (leaf : Leaf s e) (h : Legible .atom e) :
    Determined .atom e := by
  intro e' r r' h' after after' same
  have word := (opening_of_same h h' nofun same).symm.trans leaf.opening
  exact leaf.determines h' word after after' same

theorem determined_call {func : String} {args : List Expr} (named : IsWord func)
    (own : ∀ arg ∈ args, Legible .value arg) (each : ∀ arg ∈ args, Determined .value arg)
    (dotted : Bool) : Determined .atom (call func args dotted) := by
  intro e' r r' h' after after' same
  have word : e'.opening = .word :=
    (opening_of_same (.call named own dotted) h' nofun same).symm
  obtain ⟨s', leaf'⟩ | ⟨func', args', dotted', rfl, named', others⟩ | ⟨statements, rfl, -⟩ :=
    h'.word_cases word
  · obtain ⟨rfl, -⟩ := leaf'.determines (.call named own dotted) rfl after' after same.symm
    cases leaf'
  · rw [text_call, text_call] at same
    obtain ⟨texts, rest⟩ := span_determines (no_delimiter_call named dotted)
      (no_delimiter_call named' dotted') (by simp [delimiters]) (by simp [delimiters]) same
    obtain ⟨rfl, later⟩ := values_determined (by decide) own each others (List.cons.inj rest).2
    obtain ⟨rfl, rfl⟩ := function_determined named named' texts
    exact ⟨rfl, later⟩
  · rw [text_call, text_block] at same
    obtain ⟨-, rest⟩ := span_determines (no_delimiter_call named dotted) (by decide)
      (by simp [delimiters]) (by simp [delimiters]) same
    cases rest

theorem determined_block {statements : List Expr} (own : ∀ s ∈ statements, Legible .statement s)
    (each : ∀ s ∈ statements, Determined .statement s) : Determined .atom (block statements) := by
  have separated : Separates text (Legible .statement) Closes "; "
      fun r => ∃ t, r = ' ' :: 'e' :: 'n' :: 'd' :: t := by
    refine separates .statement (fun r => .inl ⟨_, rfl⟩) ?_ ?_ ?_
    · rintro _ ⟨t, rfl⟩
      exact .inr ⟨_, rfl⟩
    · rintro r ⟨t, is⟩
      cases is
    · rintro _ ⟨t, rfl⟩
      exact ⟨_, _, rfl, by decide⟩
  intro e' r r' h' after after' same
  have word : e'.opening = .word := (opening_of_same (.block own) h' nofun same).symm
  obtain ⟨s', leaf'⟩ | ⟨func', args', dotted', rfl, named', -⟩ | ⟨statements', rfl, others⟩ :=
    h'.word_cases word
  · obtain ⟨rfl, -⟩ := leaf'.determines (.block own) rfl after' after same.symm
    cases leaf'
  · rw [text_call, text_block] at same
    obtain ⟨-, rest⟩ := span_determines (by decide) (no_delimiter_call named' dotted')
      (by simp [delimiters]) (by simp [delimiters]) same
    cases rest
  · rw [text_block, text_block] at same
    obtain ⟨parts, rest⟩ := separated.joined_determines
      (fun s inside => ⟨own s inside, each s inside⟩) others ⟨r, rfl⟩ ⟨r', rfl⟩
      (List.cons.inj (List.append_cancel_left same)).2
    rw [List.forall₂_eq_eq_eq] at parts
    cases rest
    exact ⟨congrArg block parts, rfl⟩

/-! ### Quotes and parentheses -/

theorem determined_string (s : String) : Determined .atom (literal (.string s)) := by
  intro e' r r' h' _ _ same
  have form : e'.opening = .quote := (opening_of_same (.string s) h' nofun same).symm
  cases h' with
  | string s' =>
      obtain ⟨rfl, rest⟩ := quote_determines same
      exact ⟨rfl, rest⟩
  | _ => cases form

/-- What stands between two values, with a blank on either side. -/
theorem infix_determined {first first' : Expr} {mark mark' : List Char}
    (each : Determined .value first) (other : Legible .value first') (plain : ' ' ∉ mark)
    (plain' : ' ' ∉ mark')
    (same : '(' :: (first.text.toList ++ ' ' :: (mark ++ ' ' :: r))
      = '(' :: (first'.text.toList ++ ' ' :: (mark' ++ ' ' :: r'))) :
    first = first' ∧ mark = mark' ∧ r = r' := by
  have blank (cs : List Char) : Stops (' ' :: cs) := by
    rintro c ⟨⟩
    decide
  have unblank {mark : List Char} (plain : ' ' ∉ mark) : ∀ c ∈ mark, c ≠ ' ' := by
    rintro c inside rfl
    exact plain inside
  obtain ⟨rfl, rest⟩ := each other (blank _) (blank _) (List.cons.inj same).2
  obtain ⟨marks, last⟩ := span_determines (unblank plain) (unblank plain') (by simp) (by simp)
    (List.cons.inj rest).2
  exact ⟨rfl, marks, (List.cons.inj last).2⟩

theorem not_record (h : Legible .value e) : '(' :: (e.text.toList ++ r) ≠ '(' :: ';' :: r' := by
  obtain ⟨c, t, whole, outside, -⟩ := h.opens
  rw [whole]
  intro same
  cases same
  exact outside (by decide)

theorem operator_plain (op : BinaryOp) (dotted : Bool) :
    ' ' ∉ (dotText dotted ++ op.symbol).toList
      ∧ (dotText dotted ++ op.symbol).toList ≠ ['?'] := by
  cases op <;> cases dotted <;> decide

theorem operator_determined {op op' : BinaryOp} {dotted dotted' : Bool}
    (same : (dotText dotted ++ op.symbol).toList = (dotText dotted' ++ op'.symbol).toList) :
    op = op' ∧ dotted = dotted' := by
  have dots (op : BinaryOp) : op.symbol.toList.head? ≠ some '.' := by cases op <;> decide
  rw [String.toList_append, String.toList_append] at same
  have symbols {op op' : BinaryOp} (same : op.symbol.toList = op'.symbol.toList) : op = op' := by
    have read (op : BinaryOp) : BinaryOp.all.find? (fun o => o.symbol == op.symbol) = some op := by
      cases op <;> rfl
    have found := read op
    rw [String.toList_inj.mp same, read] at found
    exact (Option.some.inj found).symm
  cases dotted <;> cases dotted'
  · exact ⟨symbols same, rfl⟩
  · exact absurd (congrArg List.head? same) (dots op)
  · exact absurd (congrArg List.head? same.symm) (dots op')
  · exact ⟨symbols (List.append_cancel_left same), rfl⟩

theorem determined_binary {left right : Expr} (op : BinaryOp) (own : Legible .value left)
    (own' : Legible .value right)
    (first : Determined .value left) (second : Determined .value right) (dotted : Bool) :
    Determined .atom (binary op left right dotted) := by
  have close (cs : List Char) : Stops (')' :: cs) := by
    rintro c ⟨⟩
    decide
  intro e' r r' h' _ _ same
  have form : e'.opening = .paren :=
    (opening_of_same (.binary op own own' dotted) h' nofun same).symm
  cases h' with
  | binary op' own₁ own₂ dotted' =>
      rw [text_binary, text_binary] at same
      obtain ⟨rfl, marks, rest⟩ := infix_determined first own₁ (operator_plain op dotted).1
        (operator_plain op' dotted').1 same
      obtain ⟨rfl, rfl⟩ := operator_determined marks
      obtain ⟨rfl, last⟩ := second own₂ (close _) (close _) rest
      exact ⟨rfl, (List.cons.inj last).2⟩
  | conditional own₁ own₂ own₃ =>
      rw [text_binary, text_conditional] at same
      obtain ⟨-, marks, -⟩ := infix_determined first own₁ (operator_plain op dotted).1
        (by decide) same
      exact absurd marks (operator_plain op dotted).2
  | record names parts =>
      rw [text_binary, text_record] at same
      exact absurd same (not_record own)
  | _ => cases form

theorem determined_conditional {cond yes no : Expr} (own : Legible .value cond)
    (own₁ : Legible .value yes) (own₂ : Legible .value no) (test : Determined .value cond)
    (first : Determined .value yes) (second : Determined .value no) :
    Determined .atom (conditional cond yes no) := by
  have close (cs : List Char) : Stops (')' :: cs) := by
    rintro c ⟨⟩
    decide
  have blank (cs : List Char) : Stops (' ' :: cs) := by
    rintro c ⟨⟩
    decide
  intro e' r r' h' _ _ same
  have form : e'.opening = .paren :=
    (opening_of_same (.conditional own own₁ own₂) h' nofun same).symm
  cases h' with
  | binary op' other₁ other₂ dotted' =>
      rw [text_binary, text_conditional] at same
      obtain ⟨-, marks, -⟩ := infix_determined test other₁ (by decide)
        (operator_plain op' dotted').1 same
      exact absurd marks.symm (operator_plain op' dotted').2
  | conditional other other₁ other₂ =>
      rw [text_conditional, text_conditional] at same
      obtain ⟨rfl, -, rest⟩ := infix_determined test other (by decide) (by decide) same
      obtain ⟨rfl, later⟩ := first other₁ (blank _) (blank _) rest
      obtain ⟨rfl, last⟩ := second other₂ (close _) (close _)
        (List.append_cancel_left (show [' ', ':', ' '] ++ _ = [' ', ':', ' '] ++ _ from later))
      exact ⟨rfl, (List.cons.inj last).2⟩
  | record names parts =>
      rw [text_conditional, text_record] at same
      exact absurd same (not_record own)
  | _ => cases form

/-- The fields of a record with commas between them. -/
theorem separates_fields : Separates fieldText
    (fun field => IsWord field.1 ∧ Legible .value field.2) Stops ", " fun r => ∃ t, r = ')' :: t where
  stops := by
    rintro r c ⟨⟩
    decide
  ends := by
    rintro _ ⟨t, rfl⟩ c ⟨⟩
    decide
  apart := by
    rintro r ⟨t, is⟩
    cases is
  unclosed := by
    rintro ⟨name, value⟩ ⟨named, -⟩ r ⟨t, is⟩
    obtain ⟨c, t', whole, start⟩ := named.start
    rw [fieldText, String.toList_append, String.toList_append, whole] at is
    exact start.opens.1 ((List.cons.inj is).1 ▸ by decide)

theorem determined_record {fields : List (String × Expr)} (names : ∀ field ∈ fields, IsWord field.1)
    (own : ∀ field ∈ fields, Legible .value field.2)
    (each : ∀ field ∈ fields, Determined .value field.2) : Determined .atom (record fields) := by
  have field (f : String × Expr) (inside : f ∈ fields) : Determines fieldText
      (fun field => IsWord field.1 ∧ Legible .value field.2) Stops Eq f := by
    rintro ⟨name', value'⟩ r r' ⟨named', legible'⟩ after after' same
    obtain ⟨name, value⟩ := f
    simp only [fieldText, String.toList_append, List.append_assoc] at same
    obtain ⟨texts, rest⟩ := span_determines (names _ inside).no_delimiter named'.no_delimiter
      (by simp [delimiters]) (by simp [delimiters]) same
    obtain ⟨values, last⟩ := each _ inside legible' after after' (List.append_cancel_left rest)
    exact ⟨Prod.ext (String.toList_inj.mp texts) values, last⟩
  intro e' r r' h' _ _ same
  have form : e'.opening = .paren := (opening_of_same (.record names own) h' nofun same).symm
  cases h' with
  | binary op' other₁ other₂ dotted' =>
      rw [text_binary, text_record] at same
      exact absurd same.symm (not_record other₁)
  | conditional other other₁ other₂ =>
      rw [text_conditional, text_record] at same
      exact absurd same.symm (not_record other)
  | record names' parts' =>
      rw [text_record, text_record] at same
      obtain ⟨parts, rest⟩ := separates_fields.joined_determines
        (fun f inside => ⟨⟨names f inside, own f inside⟩, field f inside⟩)
        (fun f inside => ⟨names' f inside, parts' f inside⟩) ⟨r, rfl⟩ ⟨r', rfl⟩
        (List.append_cancel_left (show ['(', ';', ' '] ++ _ = ['(', ';', ' '] ++ _ from same))
      rw [List.forall₂_eq_eq_eq] at parts
      exact ⟨congrArg record parts, (List.cons.inj rest).2⟩
  | _ => cases form

/-! ### Brackets -/

/-- What can follow a row of a matrix. -/
def RowEnds (rest : List Char) : Prop :=
  (∃ t, rest = ';' :: ' ' :: t) ∨ ∃ t, rest = ']' :: t

theorem RowEnds.stops (h : RowEnds r) : Stops r := by
  obtain ⟨t, rfl⟩ | ⟨t, rfl⟩ := h <;> rintro c ⟨⟩ <;> decide

/-- A row that has cells. -/
def IsRow (row : List Expr) : Prop :=
  row ≠ [] ∧ ∀ cell ∈ row, Legible .value cell

theorem separates_cells : Separates text (Legible .value) Stops " " RowEnds := by
  refine separates .value ?_ (fun r => RowEnds.stops) ?_ ?_
  · rintro r c ⟨⟩
    decide
  · rintro r (⟨t, is⟩ | ⟨t, is⟩) <;> cases is
  · rintro _ (⟨t, rfl⟩ | ⟨t, rfl⟩) <;> exact ⟨_, _, rfl, by decide⟩

theorem separates_rows : Separates rowText IsRow RowEnds "; " fun r => ∃ t, r = ']' :: t where
  stops r := .inl ⟨_, rfl⟩
  ends := by
    rintro _ ⟨t, rfl⟩
    exact .inr ⟨t, rfl⟩
  apart := by
    rintro r ⟨t, is⟩
    cases is
  unclosed := by
    rintro row ⟨some, legible⟩ r ⟨t, is⟩
    obtain ⟨cell, cells, rfl⟩ := List.exists_cons_of_ne_nil some
    obtain ⟨c, t', whole, outside, -⟩ := (legible cell List.mem_cons_self).opens
    rw [rowText, List.map_cons, toList_joinWith, whole] at is
    exact outside ((List.cons.inj is).1 ▸ by decide)

theorem row_determined {row : List Expr} (own : IsRow row)
    (each : ∀ cell ∈ row, Determined .value cell) : Determines rowText IsRow RowEnds Eq row := by
  intro row' r r' other after after' same
  obtain ⟨parts, rest⟩ := separates_cells.joined_determines
    (fun cell inside => ⟨own.2 cell inside, each cell inside⟩) other.2 after after' same
  rw [List.forall₂_eq_eq_eq] at parts
  exact ⟨parts, rest⟩

/-- A vector is not written like a matrix, if the first item can be told from the first cell. -/
theorem vector_not_matrix {items : List Expr} {rows : List (List Expr)}
    (own : ∀ item ∈ items, Legible .value item) (full : ∀ row ∈ rows, row ≠ [])
    (several : 2 ≤ rows.flatten.length) (parts : ∀ row ∈ rows, ∀ cell ∈ row, Legible .value cell)
    (apart : ∀ item ∈ items, ∀ row ∈ rows, ∀ cell ∈ row, ∀ x y, Stops x → Stops y →
      item.text.toList ++ x = cell.text.toList ++ y → x = y) :
    (vector items).text.toList ++ r ≠ (matrix rows).text.toList ++ r' := by
  -- After the first cell stands another cell or another row, which no comma or bracket begins.
  obtain ⟨row, later, rfl⟩ : ∃ row later, rows = row :: later :=
    List.exists_cons_of_ne_nil (by rintro rfl; simp at several)
  obtain ⟨cell, cells, rfl⟩ := List.exists_cons_of_ne_nil (full row List.mem_cons_self)
  obtain ⟨d, t, written, mark⟩ : ∃ d t, (joinWith "; " ((cell :: cells) :: later |>.map rowText)).toList
      ++ ']' :: r' = cell.text.toList ++ d :: t ∧ d ∈ [' ', ';'] := by
    rw [List.map_cons, toList_joinWith, rowText, List.map_cons, toList_joinWith]
    cases cells with
    | cons second cells => exact ⟨' ', _, by simp; rfl, by decide⟩
    | nil =>
        cases later with
        | cons second later => exact ⟨';', _, by simp; rfl, by decide⟩
        | nil => simp at several
  rw [text_vector, text_matrix, written]
  intro same
  have same := (List.cons.inj same).2
  cases items with
  | nil =>
      obtain ⟨c, t', whole, outside, -⟩ := (parts _ List.mem_cons_self cell List.mem_cons_self).opens
      rw [whole] at same
      exact outside ((List.cons.inj same).1 ▸ by decide)
  | cons item items =>
      obtain ⟨d', t', written', mark'⟩ : ∃ d' t', joined ", " (item :: items) ++ ']' :: r
          = item.text.toList ++ d' :: t' ∧ d' ∈ [',', ']'] := by
        rw [joined, List.map_cons, toList_joinWith]
        cases items with
        | cons second items => exact ⟨',', _, by simp; rfl, by decide⟩
        | nil => exact ⟨']', r, by simp, by decide⟩
      rw [written'] at same
      have marks : ∀ c ∈ [',', ']'], c ∈ closings ∧ c ∉ [' ', ';'] := by decide
      have marks' : ∀ c ∈ [' ', ';'], c ∈ closings := by decide
      have tails := apart item List.mem_cons_self _ List.mem_cons_self cell List.mem_cons_self
        (d' :: t') (d :: t) (by rintro c ⟨⟩; exact (marks _ mark').1)
        (by rintro c ⟨⟩; exact marks' _ mark) same
      exact (marks d' mark').2 ((List.cons.inj tails).1 ▸ mark)

theorem determined_vector {items : List Expr} (own : ∀ item ∈ items, Legible .value item)
    (each : ∀ item ∈ items, Determined .value item) : Determined .atom (vector items) := by
  intro e' r r' h' _ _ same
  have form : e'.opening = .bracket := (opening_of_same (.vector own) h' nofun same).symm
  cases h' with
  | vector others =>
      rw [text_vector, text_vector] at same
      obtain ⟨rfl, rest⟩ := values_determined (by decide) own each others (List.cons.inj same).2
      exact ⟨rfl, rest⟩
  | matrix full several parts =>
      exact absurd same (vector_not_matrix own full several parts
        fun item inside row there cell within x y hx hy same =>
          (each item inside (parts row there cell within) hx hy same).2)
  | _ => cases form

theorem determined_matrix {rows : List (List Expr)} (full : ∀ row ∈ rows, row ≠ [])
    (several : 2 ≤ rows.flatten.length) (own : ∀ row ∈ rows, ∀ cell ∈ row, Legible .value cell)
    (each : ∀ row ∈ rows, ∀ cell ∈ row, Determined .value cell) :
    Determined .atom (matrix rows) := by
  intro e' r r' h' _ _ same
  have form : e'.opening = .bracket := (opening_of_same (.matrix full several own) h' nofun same).symm
  cases h' with
  | vector others =>
      exact absurd same.symm (vector_not_matrix others full several own
        fun item inside row there cell within x y hx hy same =>
          (each row there cell within (others item inside) hy hx same.symm).2.symm)
  | matrix full' several' parts =>
      rw [text_matrix, text_matrix] at same
      obtain ⟨same, rest⟩ := separates_rows.joined_determines
        (fun row inside => ⟨⟨full row inside, own row inside⟩,
          row_determined ⟨full row inside, own row inside⟩ (each row inside)⟩)
        (fun row inside => ⟨full' row inside, parts row inside⟩) ⟨r, rfl⟩ ⟨r', rfl⟩
        (List.cons.inj same).2
      rw [List.forall₂_eq_eq_eq] at same
      exact ⟨congrArg matrix same, (List.cons.inj rest).2⟩
  | _ => cases form

/-! ### Values -/

theorem groups_determined {groups groups' : List (List Expr)}
    (own : ∀ group ∈ groups, ∀ item ∈ group, Legible .value item)
    (each : ∀ group ∈ groups, ∀ item ∈ group, Determined .value item)
    (others : ∀ group ∈ groups', ∀ item ∈ group, Legible .value item) (after : Stops r)
    (after' : Stops r') (same : groupsText groups ++ r = groupsText groups' ++ r') :
    groups = groups' ∧ r = r' := by
  induction groups generalizing groups' with
  | nil =>
      cases groups' with
      | nil => exact ⟨rfl, same⟩
      | cons group' groups' =>
          subst same
          exact absurd (after '[' rfl) (by decide)
  | cons group groups ih =>
      cases groups' with
      | nil =>
          have is : r' = '[' :: _ := same.symm
          have closed := after' '[' (by rw [is]; rfl)
          exact absurd closed (by decide)
      | cons group' groups' =>
          rw [List.forall_mem_cons] at own each others
          have whole : joined ", " group ++ ']' :: (groupsText groups ++ r)
              = joined ", " group' ++ ']' :: (groupsText groups' ++ r') := by
            simpa [groupsText] using same
          obtain ⟨rfl, rest⟩ := values_determined (by decide) own.1 each.1 others.1 whole
          obtain ⟨rfl, last⟩ := ih own.2 each.2 others.2 rest
          exact ⟨rfl, last⟩

theorem sign_determined {op op' : UnaryOp} {dotted dotted' : Bool}
    (same : (dotText dotted ++ op.symbol).toList ++ r = (dotText dotted' ++ op'.symbol).toList ++ r') :
    op = op' ∧ dotted = dotted' ∧ r = r' := by
  cases op <;> cases op' <;> cases dotted <;> cases dotted' <;>
    simp_all [dotText, UnaryOp.symbol]

theorem determined_indexed {base : Expr} {groups : List (List Expr)} (own : Legible .atom base)
    (first : Determined .atom base) (legible : ∀ group ∈ groups, ∀ item ∈ group, Legible .value item)
    (each : ∀ group ∈ groups, ∀ item ∈ group, Determined .value item) :
    Determined .value (groups.foldl index base) := by
  intro e' r r' h' after after' same
  have form := opening_of_same (.indexed own legible) h' nofun same
  rw [opening_indexed] at form
  cases h' with
  | @indexed base' groups' other parts =>
      rw [text_indexed, text_indexed] at same
      obtain ⟨rfl, rest⟩ := first other (touches_groups groups after) (touches_groups groups' after')
        same
      obtain ⟨rfl, last⟩ := groups_determined legible each parts after after' rest
      exact ⟨rfl, last⟩
  | unary op h dotted => cases own <;> cases form

theorem determined_unary (op : UnaryOp) {operand : Expr} (own : Legible .value operand)
    (each : Determined .value operand) (dotted : Bool) :
    Determined .value (unary op operand dotted) := by
  intro e' r r' h' after after' same
  have form := opening_of_same (.unary op own dotted) h' nofun same
  cases h' with
  | @indexed base' groups' other parts =>
      rw [opening_indexed] at form
      cases other <;> cases form
  | unary op' other dotted' =>
      rw [text_unary, text_unary] at same
      obtain ⟨rfl, rfl, rest⟩ := sign_determined same
      obtain ⟨rfl, last⟩ := each other after after' rest
      exact ⟨rfl, last⟩

/-! ### Targets and statements -/

theorem value_not_splat {name : String} (h : Legible .value e) (named : IsWord name)
    (after : Stops r) (after' : Stops r') :
    e.text.toList ++ r ≠ (splat name).text.toList ++ r' := by
  intro same
  have form : e.opening = .word := opening_of_same (.item h) (.splat named) nofun same
  cases h with
  | @indexed base groups own _ =>
      rw [opening_indexed] at form
      rw [text_indexed] at same
      obtain ⟨rfl, -⟩ := (Leaf.splat named).determines own form after'.touches
        (touches_groups groups after) same.symm
      cases own
  | unary => cases form

theorem determined_item (own : Legible .value e) (h : Determined .value e) :
    Determined .target e := by
  intro e' r r' h' after after' same
  cases h' with
  | item other => exact h other after after' same
  | splat named => exact absurd same (value_not_splat own named after after')

theorem determined_splat {name : String} (named : IsWord name) :
    Determined .target (splat name) := by
  intro e' r r' h' after after' same
  cases h' with
  | item other => exact absurd same.symm (value_not_splat other named after' after)
  | splat named' =>
      obtain ⟨texts, rest⟩ := span_determines (Leaf.splat named).no_delimiter
        (Leaf.splat named').no_delimiter after.touches.delimits after'.touches.delimits same
      exact ⟨(Leaf.splat named).eq_of_text (.splat named') (String.toList_inj.mp texts), rest⟩

/-- What can follow the targets of an assignment, or a statement that is none. -/
def TargetsEnd (rest : List Char) : Prop :=
  Closes rest ∨ ∃ t, rest = ' ' :: '=' :: ' ' :: t

theorem separates_targets : Separates text (Legible .target) Stops ", " TargetsEnd := by
  refine separates .target ?_ ?_ ?_ ?_
  · rintro r c ⟨⟩
    decide
  · rintro r (closed | ⟨t, rfl⟩)
    · exact closed.stops
    · rintro c ⟨⟩
      decide
  · rintro r ((⟨t, is⟩ | ⟨t, is⟩) | ⟨t, is⟩) <;> cases is
  · rintro _ ((⟨t, rfl⟩ | ⟨t, rfl⟩) | ⟨t, rfl⟩) <;> exact ⟨_, _, rfl, by decide⟩

theorem targets_determined {targets targets' : List Expr}
    (own : ∀ t ∈ targets, Legible .target t) (each : ∀ t ∈ targets, Determined .target t)
    (others : ∀ t ∈ targets', Legible .target t) (after : TargetsEnd r) (after' : TargetsEnd r')
    (same : joined ", " targets ++ r = joined ", " targets' ++ r') : targets = targets' ∧ r = r' := by
  obtain ⟨parts, rest⟩ := separates_targets.joined_determines
    (fun t inside => ⟨own t inside, each t inside⟩) others after after' same
  rw [List.forall₂_eq_eq_eq] at parts
  exact ⟨parts, rest⟩

theorem not_equals (h : Closes r) (t : List Char) : r ≠ ' ' :: '=' :: ' ' :: t := by
  rintro rfl
  obtain ⟨t', is⟩ | ⟨t', is⟩ := h <;> cases is

theorem determined_plain (own : Legible .value e) (h : Determined .value e) :
    Determined .statement e := by
  intro e' r r' h' after after' same
  cases h' with
  | plain other => exact h other after.stops after'.stops same
  | @assign targets value some parts _ =>
      rw [text_assign _ some] at same
      have target : ∀ t ∈ [e], Legible .target t := by simpa using Legible.item own
      have each : ∀ t ∈ [e], Determined .target t := by simpa using determined_item own h
      obtain ⟨-, rest⟩ := targets_determined target each parts (.inl after) (.inr ⟨_, rfl⟩) same
      exact absurd rest (not_equals after _)

theorem determined_assign {targets : List Expr} {value : Expr} (some : targets ≠ [])
    (own : ∀ t ∈ targets, Legible .target t) (each : ∀ t ∈ targets, Determined .target t)
    (h : Determined .value value) : Determined .statement (assign (assigned targets) value) := by
  intro e' r r' h' after after' same
  rw [text_assign _ some] at same
  cases h' with
  | plain other =>
      have target : ∀ t ∈ [e'], Legible .target t := by simpa using Legible.item other
      obtain ⟨-, rest⟩ := targets_determined own each target (.inr ⟨_, rfl⟩) (.inl after') same
      exact absurd rest.symm (not_equals after' _)
  | @assign targets' value' some' parts other =>
      rw [text_assign _ some'] at same
      obtain ⟨rfl, rest⟩ := targets_determined own each parts (.inr ⟨_, rfl⟩) (.inr ⟨_, rfl⟩) same
      obtain ⟨rfl, last⟩ := h other after.stops after'.stops
        (List.append_cancel_left (show [' ', '=', ' '] ++ _ = [' ', '=', ' '] ++ _ from rest))
      exact ⟨rfl, last⟩

end

/-- A legible expression is determined by its text where it is written. -/
theorem Legible.determined {layer : Layer} {e : Expr} (h : Legible layer e) :
    Determined layer e := by
  induction h with
  | missing => exact determined_leaf (.constant (.head _)) .missing
  | bool b =>
      cases b
      · exact determined_leaf (.constant (.tail _ (.tail _ (.head _)))) (.bool false)
      · exact determined_leaf (.constant (.tail _ (.head _))) (.bool true)
  | int h => exact determined_leaf (.int h) (.int h)
  | float h => exact determined_leaf (.float h) (.float h)
  | string s => exact determined_string s
  | ident h => exact determined_leaf (.ident h) (.ident h)
  | call named own dotted each => exact determined_call named own each dotted
  | binary op own own' dotted first second => exact determined_binary op own own' first second dotted
  | conditional own own₁ own₂ test first second =>
      exact determined_conditional own own₁ own₂ test first second
  | vector own each => exact determined_vector own each
  | matrix full several own each => exact determined_matrix full several own each
  | record names own each => exact determined_record names own each
  | block own each => exact determined_block own each
  | indexed own legible first each => exact determined_indexed own first legible each
  | unary op own dotted each => exact determined_unary op own each dotted
  | item own ih => exact determined_item own ih
  | splat named => exact determined_splat named
  | plain own ih => exact determined_plain own ih
  | assign some own _ each value => exact determined_assign some own each value

/-- Legible statements with the same text are equal, and values are statements. -/
theorem Legible.eq_of_text {e e' : Expr} (h : Legible .statement e) (h' : Legible .statement e')
    (same : e.text = e'.text) : e = e' := by
  have ends : Closes [';'] := .inl ⟨_, rfl⟩
  exact (h.determined h' ends ends (by rw [same])).1

end TablePlan.Expr
