import TablePlan.Proofs.Grammar.Printed
import TablePlan.Proofs.Grammar.Stranding

/-!
# Names that begin like a block

The word that opens a block is read wherever its characters are, also at the beginning of a longer
name. A block that is opened inside of a name takes the word that closes it from the block around
it, which then has none: a name that begins like a block is a statement of its own only if the block
that it begins is not closed either. So it depends on how often a name repeats that word before it
goes on.
-/

namespace TablePlan.Grammar

open Reader

/-- The characters begin with the word that opens a block an even or an odd number of times. After
that they end, or there is a word that neither opens nor closes a block. -/
inductive Opens : (odd : Bool) → List Char → Prop
  | nothing : Opens false []
  | word {word : String} (plain : isPlainName word) (other : word ≠ "end")
      (apart : ¬ "begin".toList <+: word.toList) : Opens false word.toList
  | more {odd : Bool} {cs : List Char} (h : Opens odd cs) : Opens (!odd) ("begin".toList ++ cs)

/-- The end of a block as it is written after a statement. -/
def blockEnd : List Char :=
  [' ', 'e', 'n', 'd']

theorem ends_blockEnd : Ends blockEnd :=
  .keyword []

section

variable {depth : Nat} {cs rest : List Char} {e : Expr} {name : String}

/-! ### Words as statements -/

theorem word_head (plain : isPlainName name) (rest : List Char) :
    ∃ c t, name.toList ++ rest = c :: t ∧ c ∉ reserved ∧ c ∉ ['-', '!', '.'] := by
  obtain ⟨c, t, whole, start, -⟩ := toList_of_plain plain
  exact ⟨c, t ++ rest, by rw [whole]; rfl, not_mem_of_all (by decide) start,
    not_mem_of_all (by decide) start⟩

theorem skipBlank_word (plain : isPlainName name) (rest : List Char) :
    skipBlank false (name.toList ++ rest) = name.toList ++ rest := by
  obtain ⟨c, t, whole, free, -⟩ := word_head plain rest
  rw [whole]
  exact skipBlank_of_head free

/-- A word is no target that stands for several columns where no dot follows. -/
theorem splat?_word (plain : isPlainName name)
    (apart : ∀ c ∈ rest.head?, isNameChar c = false ∧ c ≠ '.') :
    splat? (name.toList ++ rest) = none := by
  have stop : ∀ c ∈ rest.head?, isNameChar c = false := fun c first => (apart c first).1
  by_cases free : name ∈ keywords
  · rw [splat?, name?_keyword plain free stop]
    rfl
  · have dots : ¬ "...".toList <+: rest := by
      rintro ⟨more, rfl⟩
      exact (apart '.' rfl).2 rfl
    simpa [splat?, name?_append plain free stop, expect?] using dots

/-- A primary operand that begins with a word is a statement where an expression ends. -/
theorem statement_of_word (plain : isPlainName name) (blank : skipBlank false cs = name.toList ++ rest)
    (apart : ∀ c ∈ rest.head?, isNameChar c = false ∧ c ≠ '.') {mid : List Char}
    (read : (primary (nested depth)).Reads cs e mid) (after : Ends mid)
    (comma : (sign ",").Refuses mid) (equals : (sign "=").Refuses mid) :
    (statement (nested (depth + 1))).Reads cs e mid := by
  have unsplat : (token splat?).Refuses cs := token_refuses blank (splat?_word plain apart)
  obtain ⟨c, t, whole, free, unsigned⟩ := word_head plain rest
  rw [whole] at blank
  have undirected : (nested (depth + 1)).directed.Refuses cs :=
    directed_refuses blank (by rintro rfl; exact absurd free (by decide)) _
  have expr : (nested (depth + 1)).expr.Reads cs e mid :=
    expr_of_primary (token_refuses blank (operator?_of_head unsigned t)) read after
  exact statement_of_expr undirected unsplat expr comma equals

/-- A keyword that neither opens nor closes a block is a constant. -/
theorem exists_constant (keyword : name ∈ keywords) (notEnd : name ≠ "end")
    (notBegin : name ≠ "begin") : ∃ v, (name, v) ∈ readWords := by
  simp only [keywords, List.mem_cons, List.not_mem_nil, or_false] at keyword
  rcases keyword with rfl | rfl | rfl | rfl | rfl | rfl
  · exact absurd rfl notBegin
  · exact absurd rfl notEnd
  · exact ⟨.bool true, .head _⟩
  · exact ⟨.bool false, .tail _ (.head _)⟩
  · exact ⟨.missing, .tail _ (.tail _ (.head _))⟩
  · exact ⟨.missing, .tail _ (.tail _ (.tail _ (.head _)))⟩

/-! ### Blocks around a word -/

/-- What is read of characters that open a block an even or an odd number of times and of the end of
a block after them: statements up to that end, or a statement that takes the end as well. -/
def Outcome (depth : Nat) (cs chars : List Char) : Bool → Prop
  | false => ∃ statements mid, Chain (blockItem (nested depth)) cs statements mid
      ∧ skipBlank false mid = "end".toList
      ∧ ∀ name : String, IsName name → name.toList = chars → statements = [.ident name]
  | true => cs ≠ [] ∧ ∃ e, (statement (nested depth)).Reads cs e []

variable {inner : Nested} {mid chars : List Char}

/-- A block whose end is taken by its statement is not closed. -/
theorem block_refuses_of_taken (opening : skipBlank false cs = "begin".toList ++ mid)
    (some : mid ≠ []) (taken : (statement (nested depth)).Reads mid e []) :
    (block (nested depth)).Refuses cs := by
  have dead : Dead [] := .nothing
  have stop : (statement (nested depth)).Refuses [] :=
    statement_refuses (dead.directed_refuses depth) (token_refuses rfl rfl) (dead.expr_refuses depth)
  have first : (sign "begin").Reads cs () mid := sign_reads opening
  have one := item_chain taken (token_refuses rfl rfl) (List.length_pos_iff.mpr some)
  have last : (sign "end").Refuses [] := token_refuses rfl rfl
  exact first.bind_refuses ((one.many stop.bind).bind_refuses last.bind)

namespace Opens

variable {odd : Bool}

theorem ne_nil (h : Opens true chars) : chars ≠ [] := by
  generalize is : true = odd at h
  cases h with
  | nothing | word => cases is
  | more => simp

theorem all_nameChar (h : Opens odd chars) : ∀ c ∈ chars, isNameChar c := by
  induction h with
  | nothing => simp
  | word plain _ _ =>
      obtain ⟨c, cs, whole, start, all⟩ := toList_of_plain plain
      rw [whole, List.forall_mem_cons]
      exact ⟨isNameChar_of_isNameStart start, all⟩
  | more _ ih =>
      rw [List.forall_mem_append]
      exact ⟨by decide, ih⟩

/-- After the first word that opens a block the characters are those of a longer name. -/
theorem plain_begin (h : Opens odd chars) :
    isPlainName (String.ofList ("begin".toList ++ chars)) := by
  have all := h.all_nameChar
  have first : isNameStart 'b' := by decide
  have others : ∀ c ∈ ['e', 'g', 'i', 'n'] ++ chars, isNameChar c := by
    rw [List.forall_mem_append]
    exact ⟨by decide, all⟩
  rw [isPlainName, String.toList_ofList]
  simpa [first] using others

theorem not_keyword (some : chars ≠ []) : String.ofList ("begin".toList ++ chars) ∉ keywords := by
  have other : ∀ word ∈ keywords, word.toList ≠ "begin".toList ++ chars := by
    simp [keywords, some]
  intro listed
  exact other _ listed (by rw [String.toList_ofList])

theorem outcome_word {word : String} (plain : isPlainName word) (other : word ≠ "end")
    (unopened : ¬ "begin".toList <+: word.toList)
    (blank : skipBlank false cs = word.toList ++ blockEnd) :
    Outcome (depth + 1) cs word.toList false := by
  obtain ⟨c, t, whole, -⟩ := toList_of_plain plain
  have chain {e : Expr} (read : (primary (nested depth)).Reads cs e blockEnd) :
      Chain (blockItem (nested (depth + 1))) cs [e] blockEnd :=
    item_chain (statement_of_word plain blank (by decide) read ends_blockEnd (token_refuses rfl rfl)
      (token_refuses rfl rfl)) (token_refuses rfl rfl) (length_lt_of_blank blank whole)
  by_cases keyword : word ∈ keywords
  · have notBegin : word ≠ "begin" := by
      rintro rfl
      exact unopened (List.prefix_refl _)
    obtain ⟨v, listed⟩ := exists_constant keyword other notBegin
    have read := chain (primary_constant listed blank ends_blockEnd.touches)
    refine ⟨_, blockEnd, read, rfl, fun name named same => ?_⟩
    rw [String.toList_inj] at same
    exact absurd keyword (same ▸ named.free)
  · have read := chain (primary_name blank ⟨plain, keyword, unopened⟩ ends_blockEnd.touches.detached)
    refine ⟨_, blockEnd, read, rfl, fun name _ same => ?_⟩
    rw [String.toList_inj.mp same]

/-- A name that opens one block more: if the block inside takes the end, it is a statement, and
otherwise the name is. -/
theorem outcome_more (h : Opens odd chars) (inside : Outcome depth (chars ++ blockEnd) chars odd)
    (opening : skipBlank false cs = "begin".toList ++ (chars ++ blockEnd)) :
    Outcome (depth + 1) cs ("begin".toList ++ chars) (!odd) := by
  have apart : ∀ c ∈ blockEnd.head?, isNameChar c = false ∧ c ≠ '.' := by decide
  have plain := h.plain_begin
  have written : skipBlank false cs
      = (String.ofList ("begin".toList ++ chars)).toList ++ blockEnd := by
    rw [String.toList_ofList, List.append_assoc, opening]
  cases odd with
  | false =>
      obtain ⟨statements, mid, chain, last, -⟩ := inside
      have read : (block (nested depth)).Reads cs (.block statements) [] :=
        block_of_statements opening chain last (by simp)
      have undirected : (directedOperand (nested depth)).Refuses cs :=
        Refuses.bind (token_refuses opening rfl)
      have primary : (primary (nested depth)).Reads cs (.block statements) [] :=
        undirected.orElse read.orElse
      have some : cs ≠ [] := by
        rintro rfl
        cases opening
      exact ⟨some, _, statement_of_word plain written apart primary .nothing (token_refuses rfl rfl)
        (token_refuses rfl rfl)⟩
  | true =>
      -- The block that the name begins is not closed, so the name itself is read.
      obtain ⟨some, e, taken⟩ := inside
      have unblocked := block_refuses_of_taken opening some taken
      have named : IsName (String.ofList ("begin".toList ++ chars)) := ⟨plain, not_keyword h.ne_nil⟩
      have primary := primary_ident written named unblocked ends_blockEnd.touches.detached
      have read := statement_of_word plain written apart primary ends_blockEnd (token_refuses rfl rfl)
        (token_refuses rfl rfl)
      have chain := item_chain read (token_refuses rfl rfl)
        (length_lt_of_blank written String.toList_ofList)
      refine ⟨_, blockEnd, chain, rfl, fun name _ same => ?_⟩
      rw [← same, String.ofList_toList]

theorem outcome (h : Opens odd chars) (deep : chars.length < depth)
    (blank : skipBlank false cs = skipBlank false (chars ++ blockEnd)) :
    Outcome depth cs chars odd := by
  -- The induction goes from the rest of the word outwards, one opened block after the other.
  induction h generalizing depth cs with
  | nothing =>
      refine ⟨[], cs, .nil cs, by rw [blank]; rfl, fun name named none => ?_⟩
      obtain ⟨c, t, whole, -⟩ := toList_of_plain named.plain
      rw [whole] at none
      cases none
  | @word word plain other unopened =>
      obtain ⟨depth, rfl⟩ : ∃ d, depth = d + 1 := ⟨depth - 1, by omega⟩
      rw [skipBlank_word plain] at blank
      exact outcome_word plain other unopened blank
  | @more odd chars h ih =>
      obtain ⟨depth, rfl⟩ : ∃ d, depth = d + 1 := ⟨depth - 1, by omega⟩
      have short : chars.length < depth := by
        rw [List.length_append, show "begin".toList.length = 5 from rfl] at deep
        omega
      exact outcome_more h (ih short rfl) blank

end Opens

/-! ### Whole texts -/

/-- Where a block is opened and not closed, no other expression begins. -/
theorem expr_refuses_unclosed (opening : skipBlank false cs = "begin".toList ++ ' ' :: rest)
    (unblocked : (block (nested depth)).Refuses cs) : (nested (depth + 1)).expr.Refuses cs := by
  have apart : ∀ c ∈ (' ' :: rest).head?, isNameChar c = false := by
    rintro c ⟨⟩
    rfl
  have unnamed : name? ("begin".toList ++ ' ' :: rest) = none :=
    name?_keyword (by decide) (by decide) apart
  have other : literalWord? ("begin".toList ++ ' ' :: rest) = none := by
    rw [literalWord?, word?_append (by decide) apart]
    rfl
  have none : (primary (nested depth)).Refuses cs :=
    primary_refuses opening (by decide) (token_refuses opening rfl) (by decide) (by decide) unblocked
      unnamed other
  exact refuses_expression (refuses_operand (token_refuses opening rfl) none)

/-- A name in a block is read as such if it opens blocks an even number of times, as one that does not
begin with `begin` does. The text is refused otherwise. -/
theorem Opens.read_block {word : String} {odd : Bool} (plain : isPlainName word)
    (free : word ∉ keywords) (h : Opens odd word.toList) :
    Expr.read ("begin " ++ word ++ " end")
      = if odd then .error .unrecognized else .ok (.block [.ident word]) := by
  generalize whole : "begin " ++ word ++ " end" = text
  have chars : text.toList = "begin".toList ++ ' ' :: (word.toList ++ blockEnd) := by
    rw [← whole]
    simp [blockEnd]
  obtain ⟨depth, enough⟩ : ∃ d, text.toList.length = d := ⟨_, rfl⟩
  have short : word.toList.length < depth := by
    rw [← enough, chars]
    simp [blockEnd]
    omega
  have opening : skipBlank false text.toList = "begin".toList ++ ' ' :: (word.toList ++ blockEnd) := by
    rw [chars]
    rfl
  have inside : Outcome depth (' ' :: (word.toList ++ blockEnd)) word.toList odd := h.outcome short rfl
  have undirected : (nested (depth + 1)).directed.Refuses text.toList :=
    directed_refuses opening (by decide) _
  cases odd with
  | false =>
      obtain ⟨statements, mid, chain, last, named⟩ := inside
      obtain rfl := named word ⟨plain, free⟩ rfl
      have block : (block (nested depth)).Reads text.toList (.block [.ident word]) [] :=
        block_of_statements opening chain last (by simp)
      have read : (primary (nested depth)).Reads text.toList (.block [.ident word]) [] :=
        (Refuses.bind (token_refuses opening rfl)).orElse block.orElse
      have expr := expr_of_primary (token_refuses opening rfl) read .nothing
      exact readAll_of_reads (enough ▸ argument_of_expr undirected expr (token_refuses rfl rfl))
  | true =>
      obtain ⟨some, e, taken⟩ := inside
      have refuses := expr_refuses_unclosed opening (block_refuses_of_taken opening some taken)
      exact readAll_of_refuses (enough ▸ argument_refuses undirected refuses)

/-- Names in a block that open none, one and two blocks. -/
theorem Opens.read_block_of_openings :
    Expr.read ("begin " ++ "ending" ++ " end") = .ok (.block [.ident "ending"])
      ∧ Expr.read ("begin " ++ "beginx" ++ " end") = .error .unrecognized
      ∧ Expr.read ("begin " ++ "beginbegin" ++ " end") = .ok (.block [.ident "beginbegin"]) := by
  have none : Opens false "ending".toList := .word (by decide) (by decide) (by decide)
  have rest : Opens false "x".toList := .word (by decide) (by decide) (by decide)
  have once : Opens true "beginx".toList := rest.more
  have twice : Opens false "beginbegin".toList := Opens.nothing.more.more
  exact ⟨@Opens.read_block "ending" false (by decide) (by decide) none,
    @Opens.read_block "beginx" true (by decide) (by decide) once,
    @Opens.read_block "beginbegin" false (by decide) (by decide) twice⟩

end

end TablePlan.Grammar
