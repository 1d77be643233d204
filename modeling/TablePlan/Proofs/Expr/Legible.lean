import TablePlan.Expr.Printer
import TablePlan.Proofs.Decimal.Literal
import TablePlan.Proofs.Text.Quoted

/-!
# Legible expressions

An expression is legible if its text shows how it is put together. Names are words, numbers have no
sign of their own, what is indexed does not begin with an operator, and a matrix has more than one
cell, so that it is not written like a vector.
-/

namespace TablePlan.Expr

/-- A name that is written without quotes. Names of parameters and of fields that are collected
begin with a percent sign. -/
structure IsWord (name : String) : Prop where
  starts : ∃ c t, name.toList = c :: t ∧ (isNameStart c ∨ c = '%')
  chars : ∀ c ∈ name.toList, isNameChar c ∨ c = '%' ∨ c = ':'
  free : name ∉ ["missing", "true", "false", "begin"]

/-- Where an expression is written: as an operand before any index, as a value, as one target of an
assignment, or as a statement of a block. -/
inductive Layer where
  | atom
  | value
  | target
  | statement

/-- What an assignment to one thing, or to several, assigns to. -/
def assigned : List Expr → Expr
  | [target] => target
  | targets => tuple targets

/-- An expression whose text shows how it is put together. -/
inductive Legible : Layer → Expr → Prop
  | missing : Legible .atom (literal .missing)
  | bool (b : Bool) : Legible .atom (literal (.bool b))
  | int {i : Int64} (h : 0 ≤ i) : Legible .atom (literal (.int i))
  | float {x : Float} (h : Decimal.Unsigned x) : Legible .atom (literal (.float x))
  | string (s : String) : Legible .atom (literal (.string s))
  | ident {name : String} (h : IsWord name) : Legible .atom (ident name)
  | call {func : String} {args : List Expr} (named : IsWord func)
      (parts : ∀ arg ∈ args, Legible .value arg) (dotted : Bool) :
      Legible .atom (call func args dotted)
  | binary (op : BinaryOp) {left right : Expr} (first : Legible .value left)
      (second : Legible .value right) (dotted : Bool) : Legible .atom (binary op left right dotted)
  | conditional {cond yes no : Expr} (test : Legible .value cond) (first : Legible .value yes)
      (second : Legible .value no) : Legible .atom (conditional cond yes no)
  | vector {items : List Expr} (parts : ∀ item ∈ items, Legible .value item) :
      Legible .atom (vector items)
  | matrix {rows : List (List Expr)} (full : ∀ row ∈ rows, row ≠ [])
      (several : 2 ≤ rows.flatten.length) (parts : ∀ row ∈ rows, ∀ item ∈ row, Legible .value item) :
      Legible .atom (matrix rows)
  | record {fields : List (String × Expr)} (names : ∀ field ∈ fields, IsWord field.1)
      (parts : ∀ field ∈ fields, Legible .value field.2) : Legible .atom (record fields)
  | block {statements : List Expr} (parts : ∀ s ∈ statements, Legible .statement s) :
      Legible .atom (block statements)
  | indexed {base : Expr} {groups : List (List Expr)} (h : Legible .atom base)
      (parts : ∀ group ∈ groups, ∀ item ∈ group, Legible .value item) :
      Legible .value (groups.foldl index base)
  | unary (op : UnaryOp) {operand : Expr} (h : Legible .value operand) (dotted : Bool) :
      Legible .value (unary op operand dotted)
  | item {e : Expr} (h : Legible .value e) : Legible .target e
  | splat {name : String} (h : IsWord name) : Legible .target (splat name)
  | plain {e : Expr} (h : Legible .value e) : Legible .statement e
  | assign {targets : List Expr} {value : Expr} (some : targets ≠ [])
      (parts : ∀ target ∈ targets, Legible .target target) (h : Legible .value value) :
      Legible .statement (assign (assigned targets) value)

theorem Legible.of_atom {e : Expr} (h : Legible .atom e) : Legible .value e :=
  show Legible .value ([].foldl index e) from .indexed h nofun

/-! ### Words and numbers -/

/-- What a word or a number is not written with. -/
def delimiters : List Char := ['(', ')', '[', ']', ',', ';', ' ']

/-- The words that constants are written as. -/
def writtenWords : List (String × Literal) :=
  [("missing", .missing), ("true", .bool true), ("false", .bool false)]

/-- The kinds of words and numbers. -/
inductive Spelling where
  | integer
  | fraction
  | word
  | splat
deriving DecidableEq

/-- An integer has digits only, another number begins with a digit, and a splat has dots after its
name. -/
def spellingOf : List Char → Spelling
  | [] => .word
  | c :: rest =>
    if c.isDigit then if rest.all Char.isDigit then .integer else .fraction
    else if rest.contains '.' then .splat else .word

/-- An expression that is one word or one number. -/
inductive Leaf : Spelling → Expr → Prop
  | int {i : Int64} (h : 0 ≤ i) : Leaf .integer (literal (.int i))
  | float {x : Float} (h : Decimal.Unsigned x) : Leaf .fraction (literal (.float x))
  | constant {word : String} {v : Literal} (listed : (word, v) ∈ writtenWords) :
      Leaf .word (literal v)
  | ident {name : String} (h : IsWord name) : Leaf .word (ident name)
  | splat {name : String} (h : IsWord name) : Leaf .splat (splat name)

namespace IsWord

variable {name : String}

theorem no_dot (h : IsWord name) : '.' ∉ name.toList := by
  intro inside
  exact absurd (h.chars _ inside) (by decide)

theorem no_delimiter (h : IsWord name) : ∀ c ∈ name.toList, c ∉ delimiters := by
  intro c inside delimiter
  have marks : ∀ c ∈ delimiters, ¬ (isNameChar c ∨ c = '%' ∨ c = ':') := by decide
  exact marks c delimiter (h.chars c inside)

theorem not_digit_of_start {c : Char} (h : isNameStart c ∨ c = '%') : c.isDigit = false := by
  obtain h | rfl := h
  · exact isDigit_of_isNameStart h
  · decide

theorem spelling (h : IsWord name) : spellingOf name.toList = .word := by
  obtain ⟨c, t, whole, start⟩ := h.starts
  have dots := h.no_dot
  rw [whole, List.mem_cons, not_or] at dots
  rw [whole, spellingOf, not_digit_of_start start]
  simpa using dots.2

end IsWord

namespace Leaf

variable {e e' : Expr} {s s' : Spelling}

theorem text_of_int {i : Int64} (h : 0 ≤ i) :
    (literal (.int i)).text.toList = Nat.toDigits 10 i.toInt.toNat :=
  Decimal.toList_int h

theorem spelling (h : Leaf s e) : spellingOf e.text.toList = s := by
  cases h with
  | int h =>
      obtain ⟨c, t, whole, digit⟩ := Decimal.exists_digit (Int64.toInt _).toNat
      have all : ∀ d ∈ c :: t, d.isDigit := fun d inside =>
        Nat.isDigit_of_mem_toDigits (by decide) (by decide) (whole ▸ inside)
      rw [text_of_int h, whole, spellingOf, if_pos digit, if_pos]
      exact List.all_eq_true.mpr fun d inside => all d (List.mem_cons_of_mem _ inside)
  | float h =>
      obtain ⟨⟨c, t, whole, digit⟩, d, inside, other⟩ := Decimal.literal_spelled h
      change spellingOf (Decimal.literalLayout.text _).toList = _
      rw [whole] at inside ⊢
      obtain rfl | inside := List.mem_cons.mp inside
      · rw [digit] at other
        cases other
      · rw [spellingOf, if_pos digit, if_neg]
        simpa using ⟨d, inside, other⟩
  | constant listed =>
      simp only [writtenWords, List.mem_cons, List.not_mem_nil, or_false, Prod.mk.injEq] at listed
      rcases listed with ⟨-, rfl⟩ | ⟨-, rfl⟩ | ⟨-, rfl⟩ <;> decide
  | ident h => exact h.spelling
  | splat h =>
      obtain ⟨c, t, whole, start⟩ := h.starts
      rw [text, String.toList_append, whole, List.cons_append, spellingOf,
        IsWord.not_digit_of_start start]
      simp

theorem eq_of_int {i i' : Int64} (h : 0 ≤ i) (h' : 0 ≤ i')
    (same : (literal (.int i)).text = (literal (.int i')).text) : i = i' := by
  have nonneg : 0 ≤ i.toInt := by simpa [Int64.le_iff_toInt_le] using h
  have nonneg' : 0 ≤ i'.toInt := by simpa [Int64.le_iff_toInt_le] using h'
  have digits := congrArg String.toList same
  rw [text_of_int h, text_of_int h'] at digits
  have numbers := Nat.ofDigitChars_ten_toDigits (n := i.toInt.toNat)
  rw [digits, Nat.ofDigitChars_ten_toDigits] at numbers
  rw [← Int64.toInt_inj]
  omega

/-- A word is the word of a constant, or the name of an identifier, which is no such word. -/
theorem eq_of_word (h : Leaf .word e) (h' : Leaf .word e') (same : e.text = e'.text) : e = e' := by
  have texts : ∀ c ∈ writtenWords, (literal c.2).text = c.1 := by
    intro c inside
    simp only [writtenWords, List.mem_cons, List.not_mem_nil, or_false] at inside
    rcases inside with rfl | rfl | rfl <;> rfl
  have words : ∀ c ∈ writtenWords, c.1 ∈ ["missing", "true", "false", "begin"] := by decide
  cases h <;> cases h'
  case constant.constant word v listed word' v' listed' =>
    have distinct : ∀ c ∈ writtenWords, ∀ c' ∈ writtenWords, c.1 = c'.1 → c.2 = c'.2 := by
      intro c inside c' inside' words
      simp only [writtenWords, List.mem_cons, List.not_mem_nil, or_false] at inside inside'
      rcases inside with rfl | rfl | rfl <;> rcases inside' with rfl | rfl | rfl <;>
        first | rfl | exact absurd words (by decide)
    exact congrArg literal (distinct _ listed _ listed'
      ((texts _ listed).symm.trans (same.trans (texts _ listed'))))
  case ident.ident => exact congrArg Expr.ident same
  case constant.ident word v listed name free =>
    have is : word = name := (texts _ listed).symm.trans same
    exact absurd (is ▸ words _ listed) free.free
  case ident.constant name free word v listed =>
    have is : word = name := (texts _ listed).symm.trans same.symm
    exact absurd (is ▸ words _ listed) free.free

/-- A leaf is determined by its text. -/
theorem eq_of_text (h : Leaf s e) (h' : Leaf s' e') (same : e.text = e'.text) : e = e' := by
  have kinds : s = s' := by rw [← h.spelling, ← h'.spelling, same]
  subst kinds
  cases s with
  | integer =>
      cases h with
      | int h =>
          cases h' with
          | int h' => rw [eq_of_int h h' same]
  | fraction =>
      cases h with
      | float h =>
          cases h' with
          | float h' => rw [Decimal.literal_injective h h' same]
  | word => exact eq_of_word h h' same
  | splat =>
      cases h with
      | splat h =>
          cases h' with
          | splat h' =>
              rw [text, text, String.append_left_inj] at same
              rw [same]

theorem not_begin (h : Leaf s e) : e.text ≠ "begin" := by
  intro is
  have kind : s = .word := by
    rw [← h.spelling, is]
    decide
  subst kind
  cases h with
  | constant listed =>
      simp only [writtenWords, List.mem_cons, List.not_mem_nil, or_false, Prod.mk.injEq] at listed
      rcases listed with ⟨-, rfl⟩ | ⟨-, rfl⟩ | ⟨-, rfl⟩ <;> exact absurd is (by decide)
  | @ident name h =>
      have is : name = "begin" := is
      exact h.free (by simp [is])

theorem no_delimiter (h : Leaf s e) : ∀ c ∈ e.text.toList, c ∉ delimiters := by
  have numbers {c : Char} (h : Decimal.IsNumberChar c) : c ∉ delimiters := by
    have marks : ∀ c ∈ delimiters, ¬ Decimal.IsNumberChar c := by decide
    exact fun inside => marks c inside h
  cases h with
  | int h =>
      rw [text_of_int h]
      exact fun c inside => numbers (Decimal.isNumberChar_of_toDigits _ c inside)
  | float => exact fun c inside => numbers (Decimal.Layout.isNumberChar_text _ _ c inside)
  | constant listed =>
      simp only [writtenWords, List.mem_cons, List.not_mem_nil, or_false, Prod.mk.injEq] at listed
      rcases listed with ⟨-, rfl⟩ | ⟨-, rfl⟩ | ⟨-, rfl⟩ <;> decide
  | ident h => exact h.no_delimiter
  | splat h =>
      rw [text, String.toList_append]
      exact List.forall_mem_append.mpr ⟨h.no_delimiter, by decide⟩

end Leaf

end TablePlan.Expr
