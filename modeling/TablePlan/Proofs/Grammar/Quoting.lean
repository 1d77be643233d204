import TablePlan.Grammar.Lexeme

/-!
# Lexemes in a longer text

Walking over a text tells for each of its characters whether it is inside a comment or between
quotes. A lexeme begins and ends outside of both, and the end of a line ends it at the latest. So
a lexeme of a text whose quotes are all closed is the same lexeme in every text that goes on with a
new line after it.
-/

namespace TablePlan.Grammar

/-! ### Quotes and comments -/

/-- Where the next character of a text is. -/
inductive Quoting where
  | outside
  | comment
  | text
  | escaped
  | letter
  | escapedLetter
  | closing

namespace Quoting

/-- Where the character after `c` is. -/
def next : Quoting → Char → Quoting
  | outside, c =>
    if c = '"' then text else if c = '\'' then letter else if c = '#' then comment else outside
  | comment, c => if c = '\n' then outside else comment
  | text, c => if c = '"' then outside else if c = '\\' then escaped else text
  | escaped, _ => text
  | letter, c => if c = '\\' then escapedLetter else closing
  | escapedLetter, _ => closing
  | closing, _ => outside

/-- Where the character after `cs` is. -/
def after (q : Quoting) (cs : List Char) : Quoting :=
  cs.foldl next q

@[simp] theorem after_nil (q : Quoting) : q.after [] = q := rfl

@[simp] theorem after_cons (q : Quoting) (c : Char) (cs : List Char) :
    q.after (c :: cs) = (q.next c).after cs := rfl

@[simp] theorem after_append (q : Quoting) (cs ds : List Char) :
    q.after (cs ++ ds) = (q.after cs).after ds := List.foldl_append

end Quoting

/-- Characters that begin and end outside of quotes and comments. -/
def Whole (cs : List Char) : Prop :=
  Quoting.outside.after cs = .outside

/-- Characters after which all quotes are closed. -/
def Settled (cs : List Char) : Prop :=
  Quoting.outside.after cs = .outside ∨ Quoting.outside.after cs = .comment

variable {cs p rest t : List Char} {c : Char}

theorem whole_nil : Whole [] := rfl

theorem Whole.append (first : Whole p) (second : Whole cs) : Whole (p ++ cs) := by
  rw [Whole, Quoting.after_append, first, second]

theorem Whole.settled_append (h : Whole p) : Settled (p ++ cs) ↔ Settled cs := by
  rw [Settled, Quoting.after_append, h, Settled]

/-- The characters that stand for something other than themselves. -/
def marks : List Char := ['"', '\'', '#']

theorem Quoting.next_of_plain (plain : c ∉ marks) : Quoting.outside.next c = .outside := by
  simp only [marks, List.mem_cons, List.not_mem_nil, or_false, not_or] at plain
  simp [Quoting.next, plain]

theorem whole_of_plain (plain : ∀ c ∈ p, c ∉ marks) : Whole p := by
  induction p with
  | nil => rfl
  | cons c p ih =>
      rw [List.forall_mem_cons] at plain
      rw [Whole, Quoting.after_cons, Quoting.next_of_plain plain.1]
      exact ih plain.2

theorem whole_of_all {is : Char → Bool} (plain : ∀ c ∈ marks, is c = false)
    (all : ∀ c ∈ p, is c) : Whole p := by
  refine whole_of_plain fun c inside mark => ?_
  have no := plain c mark
  rw [all c inside] at no
  cases no

/-! ### Blank space -/

/-- Where blank space is read from, in a comment or not. -/
def Quoting.blank (inComment : Bool) : Quoting :=
  if inComment then comment else outside

/-- A character is passed over, or it is where blank space ends. -/
theorem skipBlank_step (b : Bool) (c : Char) :
    (∃ b', (Quoting.blank b).next c = .blank b' ∧ ∀ cs, skipBlank b (c :: cs) = skipBlank b' cs)
      ∨ b = false ∧ ∀ cs, skipBlank b (c :: cs) = c :: cs := by
  cases b with
  | true =>
      refine .inl ⟨c != '\n', ?_, fun _ => rfl⟩
      by_cases newline : c = '\n' <;> simp [Quoting.blank, Quoting.next, newline]
  | false =>
      by_cases space : c = ' ' ∨ c = '\t' ∨ c = '\r' ∨ c = '\n'
      · refine .inl ⟨false, ?_, fun cs => ?_⟩
        · rcases space with rfl | rfl | rfl | rfl <;> rfl
        · rcases space with rfl | rfl | rfl | rfl <;> rfl
      · by_cases mark : c = '#'
        · subst mark
          exact .inl ⟨true, rfl, fun _ => rfl⟩
        · refine .inr ⟨rfl, fun cs => ?_⟩
          simp only [not_or] at space
          simp [skipBlank, space, mark]

/-- Blank space and comments before a lexeme end outside of comments. -/
theorem exists_blank {b : Bool} (found : skipBlank b cs = c :: t) :
    ∃ p, cs = p ++ c :: t ∧ (Quoting.blank b).after p = .outside := by
  induction cs generalizing b with
  | nil => cases found
  | cons d cs ih =>
      obtain ⟨b', step, passed⟩ | ⟨rfl, stops⟩ := skipBlank_step b d
      · obtain ⟨p, rfl, ends⟩ := ih (passed cs ▸ found)
        exact ⟨d :: p, rfl, by rw [Quoting.after_cons, step, ends]⟩
      · rw [stops] at found
        exact ⟨[], found, rfl⟩

theorem skipBlank_append {b : Bool} (found : skipBlank b cs = c :: t) (more : List Char) :
    skipBlank b (cs ++ more) = c :: (t ++ more) := by
  induction cs generalizing b with
  | nil => cases found
  | cons d cs ih =>
      rw [List.cons_append]
      obtain ⟨b', -, passed⟩ | ⟨rfl, stops⟩ := skipBlank_step b d
      · rw [passed] at found ⊢
        exact ih found
      · rw [stops] at found ⊢
        cases found
        rfl

/-- A new line ends a comment. -/
theorem skipBlank_newline {b : Bool} (blank : skipBlank b cs = []) (more : List Char) :
    skipBlank b (cs ++ '\n' :: more) = skipBlank false more := by
  induction cs generalizing b with
  | nil => cases b <;> rfl
  | cons d cs ih =>
      rw [List.cons_append]
      obtain ⟨b', -, passed⟩ | ⟨rfl, stops⟩ := skipBlank_step b d
      · rw [passed] at blank ⊢
        exact ih blank
      · rw [stops] at blank
        cases blank

/-- Nothing but blank space and comments leaves all quotes closed. -/
theorem settled_of_blank (blank : skipBlank false cs = []) : Settled cs := by
  have all (ds : List Char) : ∀ b, skipBlank b ds = [] →
      ∃ b', (Quoting.blank b).after ds = .blank b' := by
    induction ds with
    | nil => exact fun b _ => ⟨b, rfl⟩
    | cons d ds ih =>
        intro b blank
        obtain ⟨b', step, passed⟩ | ⟨rfl, stops⟩ := skipBlank_step b d
        · rw [Quoting.after_cons, step]
          exact ih b' (passed ds ▸ blank)
        · rw [stops] at blank
          cases blank
  obtain ⟨b, ends⟩ := all cs false blank
  cases b with
  | false => exact .inl ends
  | true => exact .inr ends

/-! ### Lexemes -/

/-- A lexeme takes at least one character and does not depend on what comes after the line. -/
structure Lexical {α : Type} (lexeme : List Char → Option (α × List Char)) : Prop where
  takes : ∀ cs a rest, lexeme cs = some (a, rest) → ∃ p, cs = p ++ rest ∧ Whole p ∧ p ≠ []
  goesOn : ∀ cs more, Settled cs →
    lexeme (cs ++ '\n' :: more) = (lexeme cs).map fun (a, rest) => (a, rest ++ '\n' :: more)

section

variable {α β γ : Type} {lexeme : List Char → Option (α × List Char)}

theorem Lexical.nothing (h : Lexical lexeme) : lexeme [] = none := by
  cases found : lexeme [] with
  | none => rfl
  | some result =>
      obtain ⟨p, empty, -, takes⟩ := h.takes [] result.1 result.2 found
      exact absurd (List.append_eq_nil_iff.mp empty.symm).1 takes

theorem Lexical.settled (h : Lexical lexeme) {a : α} (found : lexeme cs = some (a, rest))
    (settled : Settled cs) : Settled rest := by
  obtain ⟨p, rfl, whole, -⟩ := h.takes cs a rest found
  exact whole.settled_append.mp settled

/-- A lexeme of which only some are taken. -/
theorem Lexical.filter {part : List Char → Option (β × List Char)} (h : Lexical lexeme)
    (f : α → Option β)
    (is : ∀ cs, part cs = (lexeme cs).bind fun found => (f found.1).map fun b => (b, found.2)) :
    Lexical part where
  takes cs b rest read := by
    rw [is] at read
    obtain ⟨found, first, read⟩ := Option.bind_eq_some_iff.mp read
    obtain ⟨b', -, same⟩ := Option.map_eq_some_iff.mp read
    cases same
    exact h.takes cs found.1 found.2 first
  goesOn cs more settled := by
    rw [is, is, h.goesOn cs more settled]
    cases lexeme cs with
    | none => rfl
    | some found => cases taken : f found.1 <;> simp [taken]

/-- One lexeme right after another. -/
theorem Lexical.seq (h : Lexical lexeme) {later : List Char → Option (β × List Char)}
    (second : Lexical later) (g : α → β → γ) : Lexical fun cs => (lexeme cs).bind fun found =>
      (later found.2).map fun found' => (g found.1 found'.1, found'.2) where
  takes cs b rest read := by
    obtain ⟨⟨a, mid⟩, first, read⟩ := Option.bind_eq_some_iff.mp read
    obtain ⟨⟨b', rest'⟩, last, same⟩ := Option.map_eq_some_iff.mp read
    cases same
    obtain ⟨p, rfl, whole, takes⟩ := h.takes cs a mid first
    obtain ⟨q, rfl, whole', -⟩ := second.takes mid b' rest' last
    exact ⟨p ++ q, (List.append_assoc ..).symm, whole.append whole',
      fun empty => takes (List.append_eq_nil_iff.mp empty).1⟩
  goesOn cs more settled := by
    dsimp only
    rw [h.goesOn cs more settled]
    cases first : lexeme cs with
    | none => rfl
    | some found =>
        change (later (found.2 ++ '\n' :: more)).map _ = _
        rw [second.goesOn found.2 more (h.settled first settled)]
        cases last : later found.2 <;> simp [last]

theorem Lexical.orElse (h : Lexical lexeme) {other : List Char → Option (α × List Char)}
    (second : Lexical other) : Lexical fun cs => lexeme cs <|> other cs where
  takes cs a rest found := by
    cases first : lexeme cs with
    | none =>
        rw [first] at found
        exact second.takes cs a rest found
    | some result =>
        rw [first] at found
        cases found
        exact h.takes cs a rest first
  goesOn cs more settled := by
    dsimp only
    rw [h.goesOn cs more settled, second.goesOn cs more settled]
    cases lexeme cs <;> rfl

/-- A lexeme right behind a mark. -/
theorem Lexical.behind {marked : List Char → Option (α × List Char)} (h : Lexical lexeme)
    (mark : Char) (plain : mark ∉ '\n' :: marks) (empty : marked [] = none)
    (is : ∀ c cs, marked (c :: cs) = if c = mark then lexeme cs else none) : Lexical marked where
  takes cs a rest found := by
    cases cs with
    | nil =>
        rw [empty] at found
        cases found
    | cons c cs =>
        rw [is] at found
        split at found
        · rename_i same
          subst same
          obtain ⟨p, rfl, whole, -⟩ := h.takes cs a rest found
          refine ⟨c :: p, rfl, ?_, by simp⟩
          exact Whole.append (p := [c])
            (Quoting.next_of_plain fun inside => plain (List.mem_cons_of_mem _ inside)) whole
        · cases found
  goesOn cs more settled := by
    cases cs with
    | nil =>
        have other : '\n' ≠ mark := fun same => plain (same ▸ List.mem_cons_self)
        rw [List.nil_append, is, if_neg other, empty]
        rfl
    | cons c cs =>
        rw [List.cons_append, is, is]
        split
        · rename_i same
          subst same
          refine h.goesOn cs more ?_
          rw [Settled, Quoting.after_cons,
            Quoting.next_of_plain fun inside => plain (List.mem_cons_of_mem _ inside)] at settled
          exact settled
        · rfl

end

end TablePlan.Grammar
