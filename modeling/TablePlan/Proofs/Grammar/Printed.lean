import TablePlan.Grammar.Call
import TablePlan.Proofs.Grammar.Readable

/-!
# Reading expressions as they are written

The text of an expression in the core of the notation is read back as that expression. Statements
are read between the words of a block, where an assignment to several targets is tried first.
-/

namespace TablePlan.Grammar

open Reader TablePlan.Expr

/-! ### Statements -/

/-- What comes after a statement of a block. -/
inductive Stops : List Char → Prop
  | semicolon (rest : List Char) : Stops (';' :: rest)
  | keyword (rest : List Char) : Stops (' ' :: 'e' :: 'n' :: 'd' :: rest)

/-- The text of a statement is read back inside of a block. -/
structure ReadableStatement (e : Expr) : Prop where
  head : ∃ c t, e.text.toList = c :: t ∧ c ∉ reserved
  reads : ∀ depth cs rest, e.text.toList.length < depth →
    skipBlank false cs = e.text.toList ++ rest → Stops rest →
      (statement (nested depth)).Reads cs e rest

theorem Stops.ends {rest : List Char} (h : Stops rest) : Ends rest := by
  cases h with
  | semicolon rest => exact .mark rest (by simp)
  | keyword rest => exact .keyword rest

theorem Stops.refuses {rest : List Char} (h : Stops rest) {c : Char} {word : List Char}
    (other : c ∉ [';', 'e']) : (token (expect? (c :: word))).Refuses rest := by
  simp only [List.mem_cons, List.not_mem_nil, or_false, not_or] at other
  cases h with
  | semicolon rest =>
      have here : skipBlank false (';' :: rest) = ';' :: rest := rfl
      exact token_refuses here (by simp [expect?, other])
  | keyword rest =>
      have here : skipBlank false (' ' :: 'e' :: 'n' :: 'd' :: rest) = 'e' :: 'n' :: 'd' :: rest := rfl
      exact token_refuses here (by simp [expect?, other])

theorem directed_refuses {cs t : List Char} {c : Char} (blank : skipBlank false cs = c :: t)
    (other : c ≠ '@') (depth : Nat) : (nested depth).directed.Refuses cs := by
  cases depth with
  | zero => exact refuses_failure cs
  | succ depth => exact (token_refuses blank (directive?_of_head other)).bind

section

variable {inner : Nested} {e : Expr} {cs rest : List Char}

/-- An expression that is neither a directive nor a target of an assignment. -/
theorem statement_of_expr (undirected : inner.directed.Refuses cs)
    (unsplat : (token splat?).Refuses cs) (read : inner.expr.Reads cs e rest)
    (comma : (sign ",").Refuses rest) (equals : (sign "=").Refuses rest) :
    (statement inner).Reads cs e rest := by
  have target : (tupleItem inner).Reads cs e rest := unsplat.map.orElse read
  have untupled : (tupleAssignment inner).Refuses cs := target.bind_refuses comma.bind.many1.bind
  have unassigned : (assignment inner).Refuses cs := read.bind_refuses equals.bind.bind
  exact undirected.orElse (untupled.orElse (unassigned.orElse read))

theorem statement_refuses (undirected : inner.directed.Refuses cs)
    (unsplat : (token splat?).Refuses cs) (none : inner.expr.Refuses cs) :
    (statement inner).Refuses cs := by
  have target : (tupleItem inner).Refuses cs := unsplat.map.or none
  exact undirected.or (target.bind.or (none.bind.or none))

end

namespace Readable

variable {e : Expr} {depth : Nat} {cs rest : List Char}

theorem directed_refuses (h : Readable e) (blank : skipBlank false cs = e.text.toList ++ rest)
    (depth : Nat) : (nested depth).directed.Refuses cs := by
  obtain ⟨c, t, whole, free, -⟩ := h.head
  rw [whole] at blank
  exact Grammar.directed_refuses blank (by rintro rfl; exact absurd free (by decide)) depth

theorem tupleItem (h : Readable e) (deep : e.text.toList.length < depth)
    (blank : skipBlank false cs = e.text.toList ++ rest) (after : Ends rest) :
    (tupleItem (nested depth)).Reads cs e rest := by
  have unsplat : (token splat?).Refuses cs := token_refuses blank (h.unsplat rest after.touches)
  exact unsplat.map.orElse (h.expr deep blank after)

/-- An expression is no assignment to several targets unless a comma follows. -/
theorem tupleAssignment_refuses (h : Readable e) (deep : e.text.toList.length < depth)
    (blank : skipBlank false cs = e.text.toList ++ rest) (after : Ends rest)
    (comma : (sign ",").Refuses rest) : (tupleAssignment (nested depth)).Refuses cs :=
  (h.tupleItem deep blank after).bind_refuses comma.bind.many1.bind

theorem statement (h : Readable e) : ReadableStatement e := by
  obtain ⟨c, t, whole, free, -⟩ := h.head
  refine ⟨⟨c, t, whole, free⟩, fun depth cs rest deep blank stops => ?_⟩
  have unsplat : (token splat?).Refuses cs := token_refuses blank (h.unsplat rest stops.ends.touches)
  exact statement_of_expr (h.directed_refuses blank depth) unsplat (h.expr deep blank stops.ends)
    (stops.refuses (by decide)) (stops.refuses (by decide))

/-- The equals sign of an assignment with the value after it. -/
theorem assigned (v : Readable e) (deep : e.text.toList.length < depth) (after : Ends rest) :
    equals.Reads (' ' :: '=' :: ' ' :: (e.text.toList ++ rest)) () (' ' :: (e.text.toList ++ rest))
      ∧ (Grammar.assigned (nested depth)).Reads (' ' :: (e.text.toList ++ rest)) e rest := by
  have blank : skipBlank false (' ' :: (e.text.toList ++ rest)) = e.text.toList ++ rest := v.shown rest
  refine ⟨?_, (v.directed_refuses blank depth).orElse (v.expr deep blank after)⟩
  have sign : (sign "=").Reads (' ' :: '=' :: ' ' :: (e.text.toList ++ rest)) ()
      (' ' :: (e.text.toList ++ rest)) := sign_reads rfl
  obtain ⟨c, t, whole, free, -⟩ := v.head
  have single : (Grammar.sign "=").Refuses (' ' :: (e.text.toList ++ rest)) := by
    rw [whole] at blank ⊢
    refine sign_refuses_of_head blank ?_ (by simp)
    rintro d first rfl
    cases first
    exact absurd free (by decide)
  exact sign.bind single.notAhead

/-- An assignment to one target. -/
theorem assign {value : Expr} (h : Readable e) (v : Readable value) :
    ReadableStatement (.assign e value) := by
  obtain ⟨c, t, whole, free, -⟩ := h.head
  have text : (Expr.assign e value).text.toList
      = e.text.toList ++ ' ' :: '=' :: ' ' :: value.text.toList := by
    simp [Expr.text]
  refine ⟨⟨c, t ++ ' ' :: '=' :: ' ' :: value.text.toList, by rw [text, whole]; rfl, free⟩,
    fun depth cs rest deep blank stops => ?_⟩
  rw [text] at deep blank
  simp only [List.length_append, List.length_cons] at deep
  simp only [List.append_assoc, List.cons_append] at blank
  have small : value.text.toList.length < depth := by omega
  obtain ⟨equals, assigned⟩ := v.assigned small stops.ends
  have read : (nested depth).expr.Reads cs e (' ' :: '=' :: ' ' :: (value.text.toList ++ rest)) :=
    h.expr (by omega) blank (.equals _)
  have comma : (sign ",").Refuses (' ' :: '=' :: ' ' :: (value.text.toList ++ rest)) :=
    token_refuses rfl rfl
  have whole : (assignment (nested depth)).Reads cs (.assign e value) rest :=
    read.bind (equals.bind (assigned.to rfl))
  exact (h.directed_refuses blank depth).orElse
    ((h.tupleAssignment_refuses (by omega) blank (.equals _) comma).orElse whole.orElse)

end Readable

/-- The text of a target among several is read back. -/
structure ReadableTarget (e : Expr) : Prop where
  head : ∃ c t, e.text.toList = c :: t ∧ c ∉ reserved
  reads : ∀ depth cs rest, e.text.toList.length < depth →
    skipBlank false cs = e.text.toList ++ rest → Ends rest →
      (tupleItem (nested depth)).Reads cs e rest

theorem readable_splat {name : String} (h : FreeName name) : ReadableTarget (.splat name) := by
  obtain ⟨c, t, whole, start, -⟩ := toList_of_plain h.plain
  have text : (Expr.splat name).text.toList = name.toList ++ "...".toList := by
    simp [Expr.text]
  refine ⟨⟨c, t ++ "...".toList, by rw [text, whole]; rfl, not_mem_of_all (by decide) start⟩,
    fun depth cs rest _ blank _ => ?_⟩
  rw [text, List.append_assoc] at blank
  have apart : ∀ c ∈ ("...".toList ++ rest).head?, isNameChar c = false := by
    rintro c ⟨⟩
    rfl
  have read : (token splat?).Reads cs name rest := by
    refine token_reads blank ?_
    rw [splat?, name?_append h.plain h.free apart]
    rfl
  exact read.map.orElse

theorem Readable.target {e : Expr} (h : Readable e) : ReadableTarget e := by
  obtain ⟨c, t, whole, free, -⟩ := h.head
  exact ⟨⟨c, t, whole, free⟩, fun depth cs rest deep blank after => h.tupleItem deep blank after⟩

/-- An assignment to several targets. -/
theorem readable_tuple {items : List Expr} {value : Expr} (several : 2 ≤ items.length)
    (each : ∀ item ∈ items, ReadableTarget item) (v : Readable value) :
    ReadableStatement (.assign (.tuple items) value) := by
  obtain ⟨first, second, others, rfl⟩ : ∃ first second others, items = first :: second :: others := by
    match items, several with
    | first :: second :: others, _ => exact ⟨first, second, others, rfl⟩
  have text : (Expr.assign (.tuple (first :: second :: others)) value).text.toList
      = Readable.joined (first :: second :: others) ++ ' ' :: '=' :: ' ' :: value.text.toList := by
    simp [Expr.text, Readable.joined]
  obtain ⟨c, t, whole, free⟩ := (each first List.mem_cons_self).head
  have shown {item : Expr} (inside : item ∈ first :: second :: others) (rest : List Char) :
      skipBlank false (item.text.toList ++ rest) = item.text.toList ++ rest := by
    obtain ⟨c, t, whole, free⟩ := (each item inside).head
    rw [whole]
    exact skipBlank_of_head free
  refine ⟨⟨c, _, by rw [text, Readable.joined_cons, whole, List.cons_append, List.cons_append], free⟩,
    fun depth cs rest deep blank stops => ?_⟩
  rw [text] at deep blank
  simp only [List.length_append, List.length_cons] at deep
  simp only [List.append_assoc, List.cons_append] at blank
  have small : value.text.toList.length < depth := by omega
  obtain ⟨equals, assigned⟩ := v.assigned small stops.ends
  have after : Ends (' ' :: '=' :: ' ' :: (value.text.toList ++ rest)) := .equals _
  have reads (item : Expr) (inside : item ∈ first :: second :: others) (cs rest : List Char)
      (blank : skipBlank false cs = item.text.toList ++ rest) (after : Ends rest) :
      (tupleItem (nested depth)).Reads cs item rest := by
    have part := Readable.length_le_joined inside
    exact (each item inside).reads depth cs rest (by omega) blank after
  have comma : (sign ",").Refuses (' ' :: '=' :: ' ' :: (value.text.toList ++ rest)) :=
    token_refuses rfl rfl
  rw [Readable.joined_cons, List.append_assoc] at blank
  have one := reads first List.mem_cons_self cs _ blank (ends_commas _ after)
  have chain : Chain (do sign ","; tupleItem (nested depth))
      (((second :: others).flatMap fun item => ',' :: ' ' :: item.text.toList)
        ++ ' ' :: '=' :: ' ' :: (value.text.toList ++ rest)) (second :: others)
      (' ' :: '=' :: ' ' :: (value.text.toList ++ rest)) := commas_chain
    (fun item inside => reads item (List.mem_cons_of_mem _ inside))
    (fun item inside => shown (List.mem_cons_of_mem _ inside)) after
  have whole : (tupleAssignment (nested depth)).Reads cs
      (.assign (.tuple (first :: second :: others)) value) rest := by
    cases chain with
    | cons two _ later =>
        exact one.bind ((Chain.many1 two later comma.bind).bind (equals.bind (assigned.to rfl)))
  obtain ⟨c, t, start, free⟩ := (each first List.mem_cons_self).head
  rw [start, List.cons_append] at blank
  have other : c ≠ '@' := by
    rintro rfl
    exact absurd free (by decide)
  exact (directed_refuses blank other depth).orElse whole.orElse

/-! ### Blocks -/

/-- One statement of a block with the semicolon after it, if there is one. -/
def blockItem (inner : Nested) : Reader Expr := do
  let e ← statement inner
  let _ ← optional (sign ";")
  return e

section

variable {depth : Nat} {cs rest : List Char}

/-- No statement begins at the end of a block. -/
theorem statement_refuses_end (blank : skipBlank false cs = "end".toList ++ rest)
    (apart : ∀ c ∈ rest.head?, isNameChar c = false) : (statement (nested depth)).Refuses cs := by
  have none : (nested depth).expr.Refuses cs := expr_refuses_end blank apart depth
  have unsplat : (token splat?).Refuses cs := by
    refine token_refuses blank ?_
    rw [splat?, name?_keyword (by decide) (by decide) apart]
    rfl
  exact statement_refuses (directed_refuses blank (by decide) depth) unsplat none

theorem item_chain {inner : Nested} {e : Expr} {mid : List Char}
    (read : (statement inner).Reads cs e mid) (semicolon : (sign ";").Refuses mid)
    (takes : mid.length < cs.length) : Chain (blockItem inner) cs [e] mid :=
  .cons (read.bind (semicolon.optional.to rfl)) takes (.nil mid)

/-- Statements up to the word that closes a block. -/
theorem block_of_statements {statements : List Expr} {mid stop : List Char}
    (opening : skipBlank false cs = "begin".toList ++ mid)
    (chain : Chain (blockItem (nested depth)) mid statements stop)
    (last : skipBlank false stop = "end".toList ++ rest)
    (apart : ∀ c ∈ rest.head?, isNameChar c = false) :
    (block (nested depth)).Reads cs (.block statements) rest := by
  have first : (sign "begin").Reads cs () mid := sign_reads opening
  have closing : (sign "end").Reads stop () rest := sign_reads last
  exact first.bind ((chain.many (statement_refuses_end last apart).bind).bind (closing.to rfl))

/-- The statements of a block, one after another. -/
theorem statements_chain {first : Expr} {others : List Expr}
    (each : ∀ s ∈ first :: others, ReadableStatement s)
    (deep : ∀ s ∈ first :: others, s.text.toList.length < depth)
    (blank : skipBlank false cs = first.text.toList
      ++ ((others.flatMap fun s => ';' :: ' ' :: s.text.toList)
        ++ ' ' :: 'e' :: 'n' :: 'd' :: rest)) :
    Chain (blockItem (nested depth)) cs (first :: others) (' ' :: 'e' :: 'n' :: 'd' :: rest) := by
  induction others generalizing first cs with
  | nil =>
      obtain ⟨c, t, whole, -⟩ := (each first List.mem_cons_self).head
      have read := (each first List.mem_cons_self).reads depth cs _ (deep first List.mem_cons_self)
        blank (.keyword rest)
      have semicolon : (sign ";").Refuses (' ' :: 'e' :: 'n' :: 'd' :: rest) :=
        token_refuses rfl rfl
      exact item_chain read semicolon (length_lt_of_blank blank whole)
  | cons s others ih =>
      obtain ⟨c, t, whole, -⟩ := (each first List.mem_cons_self).head
      have read := (each first List.mem_cons_self).reads depth cs _ (deep first List.mem_cons_self)
        blank (.semicolon _)
      have takes := length_lt_of_blank blank whole
      rw [List.forall_mem_cons] at each deep
      obtain ⟨c', t', whole', free⟩ := (each.2 s List.mem_cons_self).head
      simp only [List.flatMap_cons, List.cons_append, List.append_assoc] at read takes
      have semicolon : (sign ";").Reads (';' :: ' ' :: (s.text.toList
          ++ ((others.flatMap fun s => ';' :: ' ' :: s.text.toList)
            ++ ' ' :: 'e' :: 'n' :: 'd' :: rest))) ()
          (' ' :: (s.text.toList ++ ((others.flatMap fun s => ';' :: ' ' :: s.text.toList)
            ++ ' ' :: 'e' :: 'n' :: 'd' :: rest))) := sign_reads rfl
      refine .cons (read.bind (semicolon.optional.to rfl)) ?_ (ih each.2 deep.2 ?_)
      · simp only [List.length_cons] at takes ⊢
        omega
      · rw [whole']
        exact skipBlank_of_head free

end

/-- What is written between the words around a block. -/
theorem exists_body {statements : List Expr} (each : ∀ s ∈ statements, ReadableStatement s) :
    ∃ body : List Char,
      (Expr.block statements).text.toList = "begin".toList ++ ' ' :: (body ++ [' ', 'e', 'n', 'd'])
        ∧ ∀ depth rest, body.length < depth → ∃ stop,
          Chain (blockItem (nested depth)) (' ' :: (body ++ ' ' :: 'e' :: 'n' :: 'd' :: rest))
            statements stop ∧ skipBlank false stop = "end".toList ++ rest := by
  cases statements with
  | nil => exact ⟨[], by simp [Expr.text, itemTexts], fun depth rest _ => ⟨_, .nil _, rfl⟩⟩
  | cons first others =>
      let written (s : Expr) : List Char := ';' :: ' ' :: s.text.toList
      refine ⟨first.text.toList ++ others.flatMap written, ?_, fun depth rest deep => ?_⟩
      · simp [Expr.text, itemTexts_eq, Text.toList_joinWith, List.flatMap_map, written]
      · have short : ∀ s ∈ first :: others, s.text.toList.length < depth := by
          rw [List.length_append] at deep
          rw [List.forall_mem_cons]
          refine ⟨by omega, fun s inside => ?_⟩
          have part := (List.sublist_flatten_of_mem (List.mem_map_of_mem (f := written) inside)).length_le
          rw [← List.flatMap_def] at part
          simp only [written, List.length_cons] at part deep
          omega
        obtain ⟨c, t, whole, free⟩ := (each first List.mem_cons_self).head
        refine ⟨_, statements_chain each short ?_, rfl⟩
        rw [List.append_assoc, whole]
        exact skipBlank_of_head free

theorem readable_block {statements : List Expr} (each : ∀ s ∈ statements, ReadableStatement s) :
    Readable (.block statements) := by
  obtain ⟨body, text, chain⟩ := exists_body each
  have blankNext (rest : List Char) : ∀ c ∈ (' ' :: rest).head?, isNameChar c = false := by
    rintro c ⟨⟩
    rfl
  refine .of_primary ⟨'b', _, text, by decide, by decide⟩ (fun rest _ => ?_)
    fun depth cs rest deep blank after => ?_
  · have unnamed : name? ("begin".toList ++ (' ' :: (body ++ [' ', 'e', 'n', 'd']) ++ rest)) = none :=
      name?_keyword (by decide) (by decide) (blankNext _)
    rw [text, List.append_assoc, splat?, unnamed]
    rfl
  · rw [text] at deep blank
    simp only [List.append_assoc, List.cons_append, List.nil_append] at blank
    simp only [List.length_append, List.length_cons] at deep
    obtain ⟨stop, statements, closing⟩ := chain depth rest (by omega)
    have block : (block (nested depth)).Reads cs (.block _) rest :=
      block_of_statements blank statements closing after.apart
    have directive : (directedOperand (nested depth)).Refuses cs :=
      Refuses.bind (token_refuses blank rfl)
    exact directive.orElse block.orElse

/-! ### The core of the notation -/

/-- Where an expression is written: as a value or as a statement of a block. -/
inductive Place where
  | value
  | statement

/-- What one value can be assigned to. -/
inductive CoreTarget : Expr → Prop
  | ident {name : String} (h : FreeName name) : CoreTarget (.ident name)
  | column {name : String} (h : FreeColumn name) : CoreTarget (.column (.name name))

/-- The core of the notation: what is written without matrices, fractional numbers and directives.
Connectives have no dot, indices follow no operator, and a block assigns to names, columns or, in a
tuple, to splats as well. -/
inductive Core : Place → Expr → Prop
  | missing : Core .value (.literal .missing)
  | bool (b : Bool) : Core .value (.literal (.bool b))
  | int {i : Int64} (h : 0 ≤ i) : Core .value (.literal (.int i))
  | string {s : String} (h : ∀ c ∈ s.toList, IsSimple c) : Core .value (.literal (.string s))
  | ident {name : String} (h : FreeName name) : Core .value (.ident name)
  | column {name : String} (h : FreeColumn name) : Core .value (.column (.name name))
  | position {i : Int64} (h : 0 ≤ i) : Core .value (.column (.position i))
  | interpolated {inner : Expr} (h : Core .value inner) : Core .value (.interpolated inner)
  | call {func : String} {args : List Expr} (named : FreeName func)
      (parts : ∀ arg ∈ args, Core .value arg) (dotted : Bool) : Core .value (.call func args dotted)
  | binary {op : BinaryOp} {left right : Expr} {dotted : Bool} (first : Core .value left)
      (second : Core .value right) (dots : dotted → op ≠ .and ∧ op ≠ .or) :
      Core .value (.binary op left right dotted)
  | unary {operand : Expr} (op : UnaryOp) (h : Core .value operand) (dotted : Bool) :
      Core .value (.unary op operand dotted)
  | index {base : Expr} {indices : List Expr} (h : Core .value base)
      (grouped : ∀ op operand dotted, base ≠ .unary op operand dotted) (some : indices ≠ [])
      (parts : ∀ item ∈ indices, Core .value item) : Core .value (.index base indices)
  | conditional {cond yes no : Expr} (test : Core .value cond) (first : Core .value yes)
      (second : Core .value no) : Core .value (.conditional cond yes no)
  | vector {items : List Expr} (parts : ∀ item ∈ items, Core .value item) :
      Core .value (.vector items)
  | block {statements : List Expr} (parts : ∀ s ∈ statements, Core .statement s) :
      Core .value (.block statements)
  | plain {e : Expr} (h : Core .value e) : Core .statement e
  | assign {target value : Expr} (names : CoreTarget target) (h : Core .value value) :
      Core .statement (.assign target value)
  | tuple {items : List Expr} {value : Expr} (several : 2 ≤ items.length)
      (names : ∀ item ∈ items, CoreTarget item ∨ ∃ name, FreeName name ∧ item = .splat name)
      (h : Core .value value) : Core .statement (.assign (.tuple items) value)

/-- How an expression is read where it is written. -/
def ReadableAt : Place → Expr → Prop
  | .value, e => Readable e ∧ ∀ items, e = .vector items → ∀ item ∈ items, Readable item
  | .statement, e => ReadableStatement e

theorem CoreTarget.readable {target : Expr} (h : CoreTarget target) : Readable target := by
  cases h with
  | ident free => exact .ident free
  | column free => exact .column free

/-- Every expression of the core is read back. -/
theorem Core.readable {place : Place} {e : Expr} (h : Core place e) : ReadableAt place e := by
  induction h with
  | missing => exact ⟨.word (.tail _ (.tail _ (.head _))) rfl, nofun⟩
  | bool b =>
      cases b
      · exact ⟨.word (.tail _ (.head _)) rfl, nofun⟩
      · exact ⟨.word (.head _) rfl, nofun⟩
  | int h => exact ⟨.int h, nofun⟩
  | string h => exact ⟨.string h, nofun⟩
  | ident h => exact ⟨.ident h, nofun⟩
  | column h => exact ⟨.column h, nofun⟩
  | position h => exact ⟨.position h, nofun⟩
  | interpolated h ih =>
      refine ⟨.interpolated ih.1 ?_ ih.2 ?_, nofun⟩
      · rintro name rfl
        cases h
        assumption
      · rintro rows rfl
        cases h
  | call named _ dotted ih => exact ⟨.call named (fun arg inside => (ih arg inside).1) dotted, nofun⟩
  | binary _ _ dots first second => exact ⟨.binary first.1 second.1 dots, nofun⟩
  | unary op _ dotted ih => exact ⟨ih.1.unary op dotted, nofun⟩
  | index _ grouped some _ ih each =>
      exact ⟨ih.1.index grouped some fun item inside => (each item inside).1, nofun⟩
  | conditional _ _ _ test first second => exact ⟨.conditional test.1 first.1 second.1, nofun⟩
  | vector _ ih =>
      refine ⟨.vector fun item inside => (ih item inside).1, ?_⟩
      rintro items ⟨⟩ item inside
      exact (ih item inside).1
  | block _ ih => exact ⟨readable_block ih, nofun⟩
  | plain _ ih => exact ih.1.statement
  | assign names _ ih => exact names.readable.assign ih.1
  | tuple several names _ ih =>
      refine readable_tuple several (fun item inside => ?_) ih.1
      obtain target | ⟨name, free, rfl⟩ := names item inside
      · exact target.readable.target
      · exact readable_splat free

/-- An argument that is neither a directive nor an assignment. -/
theorem argument_of_expr {inner : Nested} {e : Expr} {cs rest : List Char}
    (undirected : inner.directed.Refuses cs) (read : inner.expr.Reads cs e rest)
    (equals : (sign "=").Refuses rest) : (argument inner).Reads cs e rest := by
  have unassigned : (assignment inner).Refuses cs := read.bind_refuses equals.bind.bind
  exact undirected.orElse (unassigned.orElse read)

theorem argument_refuses {inner : Nested} {cs : List Char} (undirected : inner.directed.Refuses cs)
    (none : inner.expr.Refuses cs) : (argument inner).Refuses cs :=
  undirected.or (none.bind.or none)

/-- A text that is read to its end. -/
theorem readAll_of_reads {α : Type} {reader : Nested → Reader α} {text : String} {a : α}
    (h : (reader (nested (text.toList.length + 1))).Reads text.toList a []) :
    readAll reader text = .ok a := by
  have finished : endOfText.Reads [] () [] := token_reads rfl rfl
  have whole : (do
      let a ← reader (nested (text.toList.length + 1))
      endOfText
      return a : Reader α).Reads text.toList a [] := h.bind (finished.to rfl)
  simp only [readAll, whole none]

/-- A text that is not recognized. -/
theorem readAll_of_refuses {α : Type} {reader : Nested → Reader α} {text : String}
    (h : (reader (nested (text.toList.length + 1))).Refuses text.toList) :
    readAll reader text = .error .unrecognized := by
  have whole : (do
      let a ← reader (nested (text.toList.length + 1))
      endOfText
      return a : Reader α).Refuses text.toList := h.bind
  simp only [readAll, whole none]

/-- The text of an expression in the core of the notation is read back as that expression. -/
theorem read_text_of_core {e : Expr} (h : Core .value e) : Expr.read e.text = .ok e := by
  have readable := h.readable.1
  have blank : skipBlank false e.text.toList = e.text.toList ++ [] := by
    simpa using readable.shown []
  have read : (nested (e.text.toList.length + 1)).expr.Reads e.text.toList e [] :=
    readable.expr (Nat.lt_succ_self _) blank .nothing
  have unassigned : (assignment (nested (e.text.toList.length + 1))).Refuses e.text.toList :=
    read.bind_refuses (Refuses.bind (Refuses.bind (token_refuses rfl rfl)))
  exact readAll_of_reads ((readable.directed_refuses blank _).orElse (unassigned.orElse read))

/-- A block that assigns to a column, with operators of several levels and an index. -/
theorem read_text_of_small_block :
    Expr.read "begin :y, rest... = (x .+ -1); x[2] end" = .ok (.block
      [.assign (.tuple [.column (.name "y"), .splat "rest"])
        (.binary .add (.ident "x") (.unary .neg (.literal (.int 1)) false) true),
        .index (.ident "x") [.literal (.int 2)]]) := by
  let assignment : Expr := .assign (.tuple [.column (.name "y"), .splat "rest"])
    (.binary .add (.ident "x") (.unary .neg (.literal (.int 1)) false) true)
  let element : Expr := .index (.ident "x") [.literal (.int 2)]
  have text : (Expr.block [assignment, element]).text = "begin :y, rest... = (x .+ -1); x[2] end" := by
    decide
  have x : Core .value (.ident "x") := .ident ⟨by decide, by decide, by decide⟩
  have rest : FreeName "rest" := ⟨by decide, by decide, by decide⟩
  have column : CoreTarget (.column (.name "y")) := .column ⟨by decide, by decide⟩
  have two : Core .value (.literal (.int 2)) := .int (by decide)
  have sum : Core .value (.binary .add (.ident "x") (.unary .neg (.literal (.int 1)) false) true) :=
    .binary x (.unary .neg (.int (by decide)) false) (by decide)
  have assigns : Core .statement assignment := by
    refine .tuple (by decide) (fun item inside => ?_) sum
    simp only [List.mem_cons, List.not_mem_nil, or_false] at inside
    obtain rfl | rfl := inside
    · exact .inl column
    · exact .inr ⟨"rest", rest, rfl⟩
  have indexed : Core .statement element := .plain (.index x nofun (by simp) (by simpa using two))
  rw [← text]
  refine read_text_of_core (.block fun s inside => ?_)
  simp only [List.mem_cons, List.not_mem_nil, or_false] at inside
  obtain rfl | rfl := inside
  · exact assigns
  · exact indexed

end TablePlan.Grammar
