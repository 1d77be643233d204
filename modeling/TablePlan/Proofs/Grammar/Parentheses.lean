import TablePlan.Proofs.Grammar.Lexical

/-!
# Parentheses in a text

Walking over a text also tells how many parentheses are open, those inside of quotes and comments
not counted. Blank space and every lexeme but a parenthesis leave that number as it is.
-/

namespace TablePlan.Grammar

/-- Where the next character of a text is, and how many parentheses are open before it. -/
structure Nesting where
  quoting : Quoting
  depth : Nat

namespace Nesting

/-- The place of the character after `c`. -/
def next (s : Nesting) (c : Char) : Nesting where
  quoting := s.quoting.next c
  depth :=
    match s.quoting, c with
    | .outside, '(' => s.depth + 1
    | .outside, ')' => s.depth - 1
    | _, _ => s.depth

/-- The place of the character after `cs`. -/
def after (s : Nesting) (cs : List Char) : Nesting :=
  cs.foldl next s

@[simp] theorem after_nil (s : Nesting) : s.after [] = s := rfl

@[simp] theorem after_cons (s : Nesting) (c : Char) (cs : List Char) :
    s.after (c :: cs) = (s.next c).after cs := rfl

@[simp] theorem after_append (s : Nesting) (cs ds : List Char) :
    s.after (cs ++ ds) = (s.after cs).after ds := List.foldl_append

theorem quoting_after (s : Nesting) (cs : List Char) :
    (s.after cs).quoting = s.quoting.after cs := by
  induction cs generalizing s with
  | nil => rfl
  | cons c cs ih => exact ih (s.next c)

/-- Inside of quotes and comments parentheses do not count. -/
theorem next_of_inside {q : Quoting} (inside : q ≠ .outside) (d : Nat) (c : Char) :
    next ⟨q, d⟩ c = ⟨q.next c, d⟩ := by
  cases q <;> first | rfl | exact absurd rfl inside

/-- Outside of them only parentheses do. -/
theorem next_of_other {c : Char} (other : c ∉ ['(', ')']) (d : Nat) :
    next ⟨.outside, d⟩ c = ⟨Quoting.outside.next c, d⟩ := by
  simp only [List.mem_cons, List.not_mem_nil, or_false, not_or] at other
  unfold next
  dsimp only
  split
  · exact absurd rfl other.1
  · exact absurd rfl other.2
  · rfl

/-- The more parentheses are open before a text, the more are open after it. -/
theorem depth_mono {q : Quoting} {d d' : Nat} (less : d ≤ d') (cs : List Char) :
    (after ⟨q, d⟩ cs).depth ≤ (after ⟨q, d'⟩ cs).depth := by
  induction cs generalizing q d d' with
  | nil => exact less
  | cons c cs ih =>
      refine ih (q := q.next c) ?_
      cases q <;> try exact less
      dsimp only
      split <;> omega

end Nesting

/-- Characters that begin and end outside of quotes and comments, and after which as many
parentheses are open as before them. -/
def Balanced (cs : List Char) : Prop :=
  ∀ d, Nesting.after ⟨.outside, d⟩ cs = ⟨.outside, d⟩

section

variable {cs p t : List Char} {c : Char}

theorem balanced_nil : Balanced [] := fun _ => rfl

theorem Balanced.append (first : Balanced p) (second : Balanced cs) : Balanced (p ++ cs) := by
  intro d
  rw [Nesting.after_append, first, second]

/-- A balanced text stays so in parentheses. -/
theorem Balanced.parenthesized (h : Balanced p) : Balanced ('(' :: (p ++ [')'])) := by
  intro d
  rw [Nesting.after_cons]
  change Nesting.after ⟨.outside, d + 1⟩ (p ++ [')']) = _
  rw [Nesting.after_append, h]
  rfl

theorem Balanced.whole (h : Balanced cs) : Whole cs := by
  rw [Whole, ← Nesting.quoting_after ⟨.outside, 0⟩, h]

/-- The characters that count, and those that stand for something other than themselves. -/
def parenthesesAndMarks : List Char :=
  '(' :: ')' :: marks

theorem balanced_of_plain (plain : ∀ c ∈ p, c ∉ parenthesesAndMarks) : Balanced p := by
  intro d
  induction p with
  | nil => rfl
  | cons c p ih =>
      rw [List.forall_mem_cons] at plain
      have other : c ∉ ['(', ')'] ∧ c ∉ marks := by
        have no := plain.1
        simp only [parenthesesAndMarks, List.mem_cons, not_or] at no
        simp [no.1, no.2.1, no.2.2]
      rw [Nesting.after_cons, Nesting.next_of_other other.1, Quoting.next_of_plain other.2]
      exact ih plain.2

theorem balanced_of_all {is : Char → Bool} (plain : ∀ c ∈ parenthesesAndMarks, is c = false)
    (all : ∀ c ∈ p, is c) : Balanced p := by
  refine balanced_of_plain fun c inside mark => ?_
  have no := plain c mark
  rw [all c inside] at no
  cases no

/-- No balanced text begins with a parenthesis that closes. -/
theorem not_balanced_closing : ¬ Balanced (')' :: cs) := by
  intro balanced
  have none := balanced 0
  have one := balanced 1
  change Nesting.after ⟨.outside, 0⟩ cs = _ at none
  change Nesting.after ⟨.outside, 0⟩ cs = _ at one
  rw [none] at one
  cases one

/-! ### Blank space -/

/-- Blank space that is passed over has no parentheses that count. -/
theorem next_of_passed {b b' : Bool} (step : (Quoting.blank b).next c = .blank b')
    (passed : ∀ cs, skipBlank b (c :: cs) = skipBlank b' cs) (d : Nat) :
    Nesting.next ⟨.blank b, d⟩ c = ⟨.blank b', d⟩ := by
  cases b with
  | true => rw [Nesting.next_of_inside (by simp [Quoting.blank]), step]
  | false =>
      have other : c ∉ ['(', ')'] := by
        intro mark
        have empty := passed []
        simp only [List.mem_cons, List.not_mem_nil, or_false] at mark
        obtain rfl | rfl := mark <;> cases empty
      have moved := Nesting.next_of_other other d
      rw [show Quoting.outside = .blank false from rfl, step] at moved
      exact moved

/-- Blank space before a lexeme leaves as many parentheses open as before it. -/
theorem exists_balanced_blank {b : Bool} (found : skipBlank b cs = c :: t) :
    ∃ p, cs = p ++ c :: t ∧ ∀ d, Nesting.after ⟨.blank b, d⟩ p = ⟨.outside, d⟩ := by
  induction cs generalizing b with
  | nil => cases found
  | cons e cs ih =>
      obtain ⟨b', step, passed⟩ | ⟨rfl, stops⟩ := skipBlank_step b e
      · obtain ⟨p, rfl, ends⟩ := ih (passed cs ▸ found)
        refine ⟨e :: p, rfl, fun d => ?_⟩
        rw [Nesting.after_cons, next_of_passed step passed, ends]
      · rw [stops] at found
        exact ⟨[], found, fun _ => rfl⟩

/-- Nothing but blank space leaves as many parentheses open as before it. -/
theorem depth_of_blank {b : Bool} (blank : skipBlank b cs = []) (d : Nat) :
    (Nesting.after ⟨.blank b, d⟩ cs).depth = d := by
  induction cs generalizing b with
  | nil => rfl
  | cons e cs ih =>
      obtain ⟨b', step, passed⟩ | ⟨rfl, stops⟩ := skipBlank_step b e
      · rw [Nesting.after_cons, next_of_passed step passed]
        exact ih (passed cs ▸ blank)
      · rw [stops] at blank
        cases blank

end

/-! ### Lexemes -/

/-- A lexeme that leaves as many parentheses open as before it. -/
def Even {α : Type} (lexeme : List Char → Option (α × List Char)) : Prop :=
  ∀ cs a rest, lexeme cs = some (a, rest) → ∃ p, cs = p ++ rest ∧ Balanced p

section

variable {α : Type} {lexeme : List Char → Option (α × List Char)}

/-- Such a lexeme does not begin with a parenthesis that closes. -/
theorem Even.closing (h : Even lexeme) (lexical : Lexical lexeme) (t : List Char) :
    lexeme (')' :: t) = none := by
  cases found : lexeme (')' :: t) with
  | none => rfl
  | some result =>
      obtain ⟨p, is, balanced⟩ := h _ _ _ found
      obtain ⟨q, is', -, some⟩ := lexical.takes _ _ _ found
      have same : p = q := List.append_cancel_right (is.symm.trans is')
      cases p with
      | nil => exact absurd same.symm some
      | cons c p =>
          obtain ⟨rfl, -⟩ := List.cons.inj is
          exact absurd balanced not_balanced_closing

end

theorem even_expect {word : List Char} (plain : ∀ c ∈ word, c ∉ parenthesesAndMarks) :
    Even (expect? word) := by
  intro cs a rest found
  unfold expect? at found
  split at found
  · rename_i begins
    cases found
    obtain ⟨rest, rfl⟩ := List.isPrefixOf_iff_prefix.mp begins
    exact ⟨word, by simp, balanced_of_plain plain⟩
  · cases found

theorem even_word : Even word? := by
  intro cs a rest found
  unfold word? at found
  split at found
  · cases found
  · rename_i c cs
    split at found
    · rename_i start
      cases found
      have first : c ∉ parenthesesAndMarks :=
        not_mem_of_all (p := isNameStart) (by decide) start
      refine ⟨c :: cs.takeWhile isNameChar, by simp, Balanced.append (p := [c]) ?_ ?_⟩
      · exact balanced_of_plain (List.forall_mem_singleton.mpr first)
      · exact balanced_of_all (by decide) fun _ => List.mem_takeWhile_imp
    · cases found

theorem even_name : Even name? := by
  intro cs a rest found
  obtain ⟨⟨word, rest'⟩, first, found⟩ := Option.bind_eq_some_iff.mp found
  dsimp only at found
  split at found
  · cases found
  · cases found
    exact even_word _ _ _ first

theorem even_literalWord : Even literalWord? := by
  intro cs a rest found
  obtain ⟨⟨word, rest'⟩, first, found⟩ := Option.bind_eq_some_iff.mp found
  dsimp only at found
  split at found <;> cases found <;> exact even_word _ _ _ first

theorem even_letters : Even letters? := by
  intro cs a rest found
  unfold letters? at found
  dsimp only at found
  split at found
  · cases found
  · cases found
    exact ⟨cs.takeWhile Char.isAlpha, (List.takeWhile_append_dropWhile ..).symm,
      balanced_of_all (by decide) fun _ => List.mem_takeWhile_imp⟩

theorem even_digits : Even digits? := by
  intro cs a rest found
  unfold digits? Decimal.spanDigits at found
  rw [List.span_eq_takeWhile_dropWhile] at found
  split at found
  · cases found
  · cases found
    exact ⟨cs.takeWhile Char.isDigit, (List.takeWhile_append_dropWhile ..).symm,
      balanced_of_all (by decide) fun _ => List.mem_takeWhile_imp⟩

theorem even_exponent : Even Decimal.exponentPart? := by
  intro cs a rest found
  cases cs with
  | nil => cases found
  | cons c cs =>
      rw [exponentPart?_cons] at found
      split at found
      · rename_i marker
        obtain ⟨⟨digits, rest'⟩, read, same⟩ := Option.map_eq_some_iff.mp found
        cases same
        obtain ⟨p, is, sign⟩ : ∃ p, cs = p ++ (signed cs).2 ∧ Balanced p := by
          unfold signed
          split
          · exact ⟨['-'], rfl, fun _ => rfl⟩
          · exact ⟨['+'], rfl, fun _ => rfl⟩
          · exact ⟨[], rfl, balanced_nil⟩
        obtain ⟨q, is', balanced⟩ := even_digits _ _ _ read
        refine ⟨c :: (p ++ q), by rw [is, is']; simp, ?_⟩
        refine Balanced.append (p := [c]) (fun _ => ?_) (sign.append balanced)
        rcases marker with rfl | rfl <;> rfl
      · cases found

theorem even_float : Even float? := by
  intro cs a rest found
  obtain ⟨⟨whole, mid⟩, first, found⟩ := Option.bind_eq_some_iff.mp found
  obtain ⟨p, is, balanced⟩ := even_digits _ _ _ first
  suffices later : ∃ q, mid = q ++ rest ∧ Balanced q by
    obtain ⟨q, is', balanced'⟩ := later
    exact ⟨p ++ q, by rw [is, is', List.append_assoc], balanced.append balanced'⟩
  dsimp only at found
  split at found
  · obtain ⟨⟨fraction, after⟩, second, found⟩ := Option.bind_eq_some_iff.mp found
    obtain ⟨q, is', balanced'⟩ := even_digits _ _ _ second
    rw [is']
    have point : Balanced ('.' :: q) := Balanced.append (p := ['.']) (fun _ => rfl) balanced'
    dsimp only at found
    split at found
    · rename_i third
      cases found
      obtain ⟨r, rfl, balanced''⟩ := even_exponent _ _ _ third
      exact ⟨'.' :: q ++ r, by simp, point.append balanced''⟩
    · cases found
      exact ⟨'.' :: q, rfl, point⟩
  · obtain ⟨⟨exponent, after⟩, second, found⟩ := Option.bind_eq_some_iff.mp found
    cases found
    exact even_exponent _ _ _ second

/-- Parentheses between quotes do not count. -/
theorem level_of_quotedBody {cs body rest : List Char}
    (found : quotedBody? cs = some (body, rest)) :
    ∃ p, cs = p ++ rest ∧ ∀ d, Nesting.after ⟨.text, d⟩ p = ⟨.outside, d⟩ := by
  fun_induction quotedBody? cs generalizing body rest with
  | case1 => cases found
  | case2 cs =>
      cases found
      exact ⟨['"'], rfl, fun _ => rfl⟩
  | case3 => cases found
  | case4 c cs ih =>
      obtain ⟨⟨body', rest'⟩, inner, same⟩ := Option.map_eq_some_iff.mp found
      cases same
      obtain ⟨p, is, level⟩ := ih inner
      exact ⟨'\\' :: c :: p, by rw [is]; rfl, level⟩
  | case5 c cs quote single escape ih =>
      obtain ⟨⟨body', rest'⟩, inner, same⟩ := Option.map_eq_some_iff.mp found
      cases same
      obtain ⟨p, is, level⟩ := ih inner
      have backslash : c ≠ '\\' := by
        rintro rfl
        cases cs with
        | nil => exact single rfl rfl
        | cons d cs => exact escape d cs rfl rfl
      refine ⟨c :: p, by rw [is]; rfl, fun d => ?_⟩
      rw [Nesting.after_cons, Nesting.next_of_inside (by simp), Quoting.next, if_neg quote,
        if_neg backslash, level]

theorem even_quoted : Even quoted? := by
  intro cs a rest found
  cases cs with
  | nil => cases found
  | cons c cs =>
      rw [quoted?_cons] at found
      split at found
      · rename_i quote
        obtain ⟨⟨body, rest'⟩, inner, same⟩ := Option.map_eq_some_iff.mp found
        cases same
        obtain ⟨p, is, level⟩ := level_of_quotedBody inner
        exact ⟨c :: p, by rw [is]; rfl, fun d => by rw [quote]; exact level d⟩
      · cases found

theorem even_character : Even character? := by
  intro cs a rest found
  unfold character? at found
  split at found
  · rename_i c rest'
    split at found
    · cases found
      exact ⟨['\'', '\\', c, '\''], rfl, fun _ => rfl⟩
    · cases found
  · rename_i c rest' escape
    split at found
    · cases found
    · cases found
      refine ⟨['\'', c, '\''], rfl, fun d => ?_⟩
      have backslash : c ≠ '\\' := fun is => escape is
      simp [Nesting.next, Quoting.next, backslash]
  · cases found

section

variable {α : Type} {symbols : List (String × α)} {dots : Bool}
  (plain : ∀ symbol ∈ symbols, Even (expect? symbol.1.toList))

include plain

theorem even_symbol (dotted : Bool) : Even (symbol? symbols dotted) := by
  intro cs a rest found
  obtain ⟨symbol, inside, found⟩ := List.exists_of_findSome?_eq_some found
  obtain ⟨⟨u, rest'⟩, read, same⟩ := Option.map_eq_some_iff.mp found
  cases same
  exact plain symbol inside _ _ _ read

theorem even_operator : Even (operator? dots symbols) := by
  intro cs a rest found
  cases cs with
  | nil => exact even_symbol plain false _ _ _ found
  | cons c cs =>
      rw [operator?_cons] at found
      split at found
      · rename_i point
        obtain ⟨p, rfl, balanced⟩ := even_symbol plain true _ _ _ found
        refine ⟨c :: p, rfl, ?_⟩
        rw [point.1]
        exact Balanced.append (p := ['.']) (fun _ => rfl) balanced
      · exact even_symbol plain false _ _ _ found

end

/-- A lexeme right behind a mark. -/
theorem Even.behind {α : Type} {lexeme marked : List Char → Option (α × List Char)}
    (h : Even lexeme) (mark : Char) (plain : mark ∉ parenthesesAndMarks)
    (is : ∀ cs a rest, marked cs = some (a, rest) →
      ∃ cs', cs = mark :: cs' ∧ lexeme cs' = some (a, rest)) : Even marked := by
  intro cs a rest found
  obtain ⟨cs', rfl, read⟩ := is cs a rest found
  obtain ⟨p, rfl, balanced⟩ := h _ _ _ read
  refine ⟨mark :: p, rfl, Balanced.append (p := [mark]) ?_ balanced⟩
  exact balanced_of_plain (List.forall_mem_singleton.mpr plain)

theorem even_directive : Even directive? :=
  even_letters.behind '@' (by decide) fun cs a rest found => by
    unfold directive? at found
    split at found
    · exact ⟨_, rfl, found⟩
    · cases found

theorem even_column : Even columnName? := by
  have either : Even fun cs => name? cs <|> quoted? cs := by
    intro cs a rest found
    cases first : name? cs with
    | none =>
        simp only [first] at found
        exact even_quoted _ _ _ found
    | some result =>
        simp only [first] at found
        cases found
        exact even_name _ _ _ first
  refine either.behind ':' (by decide) fun cs a rest found => ?_
  unfold columnName? at found
  split at found
  · exact ⟨_, rfl, found⟩
  · cases found

theorem even_splat : Even splat? := by
  intro cs a rest found
  obtain ⟨⟨name, mid⟩, first, found⟩ := Option.bind_eq_some_iff.mp found
  obtain ⟨⟨u, rest'⟩, second, found⟩ := Option.bind_eq_some_iff.mp found
  cases found
  obtain ⟨p, rfl, balanced⟩ := even_name _ _ _ first
  obtain ⟨q, rfl, balanced'⟩ := even_expect (by decide) _ _ _ second
  exact ⟨p ++ q, (List.append_assoc ..).symm, balanced.append balanced'⟩

end TablePlan.Grammar
