import TablePlan.Proofs.Grammar.Printed

/-!
# Texts and column names read back

Between quotes, line ends, tabs, quotes and backslashes are written as escapes that are read back.
The null character and characters that print nothing or attach to their neighbour are written as
escapes that the notation does not know, and these are read letter by letter. A column whose name is a
plain word is written without quotes, also if the word is a keyword, which is not read as a name.
-/

namespace TablePlan.Grammar

open Reader

section

variable {text : String} {c : Char} {t : List Char}

/-- Neither a directive nor an operator begins a text that shows another character. -/
theorem unmarked (whole : text.toList = c :: t) (free : c ∉ reserved) (unsigned : c ∉ ['-', '!', '.'])
    (depth : Nat) : (nested depth).directed.Refuses text.toList ∧ unaryOperator.Refuses text.toList := by
  have blank : skipBlank false text.toList = c :: t := by
    rw [whole]
    exact skipBlank_of_head free
  exact ⟨directed_refuses blank (by rintro rfl; exact absurd free (by decide)) depth,
    token_refuses blank (operator?_of_head unsigned t)⟩

/-- A text that is a primary operand as a whole. -/
theorem read_of_primary {e : Expr} (whole : text.toList = c :: t) (free : c ∉ reserved)
    (unsigned : c ∉ ['-', '!', '.']) (read : ∀ inner, (primary inner).Reads text.toList e []) :
    Expr.read text = .ok e := by
  obtain ⟨undirected, plain⟩ := unmarked whole free unsigned (text.toList.length + 1)
  have expr : (nested (text.toList.length + 1)).expr.Reads text.toList e [] :=
    expr_of_primary plain (read _) .nothing
  exact readAll_of_reads (argument_of_expr undirected expr (token_refuses rfl rfl))

/-- A text where no primary operand begins. -/
theorem read_of_primary_refuses (whole : text.toList = c :: t) (free : c ∉ reserved)
    (unsigned : c ∉ ['-', '!', '.']) (none : ∀ inner, (primary inner).Refuses text.toList) :
    Expr.read text = .error .unrecognized := by
  obtain ⟨undirected, plain⟩ := unmarked whole free unsigned (text.toList.length + 1)
  exact readAll_of_refuses (argument_refuses undirected (expr_refuses_of_primary none plain _))

end

/-- What the text of a constant text is read as. -/
theorem read_string_text (s : String) :
    Expr.read (Expr.literal (.string s)).text = .ok (.literal (.string (readBackText s))) := by
  have whole : (Expr.literal (.string s)).text.toList
      = '"' :: (s.toList.flatMap Text.escape ++ ['"']) := Text.toList_quote s
  refine read_of_primary whole (by decide) (by decide) fun inner => primary_string ?_
  rw [whole, skipBlank_of_head (by decide), Text.toList_quote, List.append_nil]
  rfl

/-- What the text of a column is read as. -/
theorem read_column_text (name : String) :
    Expr.read (Expr.column (.name name)).text
      = if name ∈ keywords then .error .unrecognized else .ok (.column (.name (readBackText name))) := by
  obtain ⟨t, text⟩ := exists_columnText name
  have whole : (Expr.column (.name name)).text.toList = ':' :: t := by
    rw [Expr.text, text]
  have apart : ∀ c ∈ ([] : List Char).head?, isNameChar c = false := by simp
  split
  · rename_i keyword
    refine read_of_primary_refuses whole (by decide) (by decide) fun inner => ?_
    have blank : skipBlank false (Expr.column (.name name)).text.toList = ':' :: t := by
      rw [whole, skipBlank_of_head (by decide)]
    have column : (token columnName?).Refuses (Expr.column (.name name)).text.toList := by
      refine token_refuses blank ?_
      rw [← text, ← List.append_nil (ColumnIdent.text _).toList]
      exact columnName?_keyword keyword apart
    exact primary_refuses blank (by decide) column (by decide) (by decide)
      (block_refuses blank (by simp)) (name?_of_start (by decide)) (literalWord?_of_start (by decide))
  · rename_i free
    refine read_of_primary whole (by decide) (by decide) fun inner => primary_column free ?_ apart
    rw [whole, skipBlank_of_head (by decide), text, List.append_nil]

/-- Which texts and which column names are read back as they were: those of which no character is
written as an escape that the notation does not know, and no column name that is a keyword. -/
theorem read_text_iff_faithful (s : String) :
    (Expr.read (Expr.literal (.string s)).text = .ok (.literal (.string s))
        ↔ ∀ c ∈ s.toList, Faithful c)
      ∧ (Expr.read (Expr.column (.name s)).text = .ok (.column (.name s))
        ↔ s ∉ keywords ∧ ∀ c ∈ s.toList, Faithful c) := by
  constructor
  · rw [read_string_text, ← readBackText_eq_iff]
    simp
  · rw [read_column_text, ← readBackText_eq_iff]
    split
    · rename_i keyword
      simp [keyword]
    · rename_i free
      simp [free]

end TablePlan.Grammar
