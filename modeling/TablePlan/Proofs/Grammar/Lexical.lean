import Mathlib.Data.List.TakeWhile
import TablePlan.Proofs.Grammar.Primary
import TablePlan.Proofs.Grammar.Quoting

/-!
# The lexemes of the notation

Each of them takes a character at least and is the same wherever its line goes on with a new one.
-/

namespace TablePlan.Grammar

variable {cs p rest t : List Char} {c : Char}

/-! ### Classes of characters -/

section

variable {is : Char → Bool}

theorem takeWhile_newline (no : is '\n' = false) (cs more : List Char) :
    (cs ++ '\n' :: more).takeWhile is = cs.takeWhile is := by
  induction cs with
  | nil => simp [List.takeWhile, no]
  | cons c cs ih => cases taken : is c <;> simp [List.takeWhile, taken, ih]

theorem dropWhile_newline (no : is '\n' = false) (cs more : List Char) :
    (cs ++ '\n' :: more).dropWhile is = cs.dropWhile is ++ '\n' :: more := by
  induction cs with
  | nil => simp [List.dropWhile, no]
  | cons c cs ih => cases taken : is c <;> simp [List.dropWhile, taken, ih]

/-- The class of the characters of a word or a number. -/
structure Plain (is : Char → Bool) : Prop where
  newline : is '\n' = false
  marks : ∀ c ∈ marks, is c = false

theorem Plain.whole (h : Plain is) : Whole (cs.takeWhile is) :=
  whole_of_all h.marks fun _ => List.mem_takeWhile_imp

end

theorem plain_nameChar : Plain isNameChar := ⟨rfl, by decide⟩

theorem plain_alpha : Plain Char.isAlpha := ⟨rfl, by decide⟩

theorem plain_digit : Plain Char.isDigit := ⟨rfl, by decide⟩

theorem not_mark_of_start (start : isNameStart c) : c ∉ marks := by
  intro mark
  have no : ∀ c ∈ marks, isNameStart c = false := by decide
  rw [no c mark] at start
  cases start

/-- A word or a sign as it is written. -/
theorem lexical_expect {word : List Char} (some : word ≠ [])
    (plain : ∀ c ∈ word, c ∉ '\n' :: marks) : Lexical (expect? word) where
  takes cs a rest found := by
    unfold expect? at found
    split at found
    · rename_i begins
      cases found
      obtain ⟨rest, rfl⟩ := List.isPrefixOf_iff_prefix.mp begins
      exact ⟨word, by simp, whole_of_plain fun c inside mark =>
        plain c inside (List.mem_cons_of_mem _ mark), some⟩
    · cases found
  goesOn cs more _ := by
    have iff : word <+: cs ++ '\n' :: more ↔ word <+: cs := by
      refine ⟨fun begins => ?_, fun begins => begins.trans (List.prefix_append ..)⟩
      by_cases short : word.length ≤ cs.length
      · exact List.prefix_of_prefix_length_le begins (List.prefix_append ..) short
      · have longer : cs ++ ['\n'] <+: word :=
          List.prefix_of_prefix_length_le ⟨more, by simp⟩ begins (by simp; omega)
        exact absurd List.mem_cons_self (plain '\n' (longer.subset (by simp)))
    unfold expect?
    by_cases begins : word <+: cs
    · have long := begins.length_le
      simp [iff, begins, List.drop_append_of_le_length long]
    · simp [iff, begins]

theorem lexical_word : Lexical word? where
  takes cs a rest found := by
    unfold word? at found
    split at found
    · cases found
    · rename_i c cs
      split at found
      · rename_i start
        cases found
        refine ⟨c :: cs.takeWhile isNameChar, by simp, ?_, by simp⟩
        exact Whole.append (p := [c]) (Quoting.next_of_plain (not_mark_of_start start))
          plain_nameChar.whole
      · cases found
  goesOn cs more _ := by
    cases cs with
    | nil => rfl
    | cons c cs =>
        rw [List.cons_append, word?, word?]
        rw [takeWhile_newline plain_nameChar.newline, dropWhile_newline plain_nameChar.newline]
        split <;> rfl

theorem lexical_name : Lexical name? := by
  refine lexical_word.filter (fun word => if keywords.contains word then none else some word)
    fun cs => bind_congr fun found => ?_
  dsimp only
  split <;> rfl

theorem lexical_literalWord : Lexical literalWord? := by
  refine lexical_word.filter (fun word =>
    if word = "true" then some (.bool true)
    else if word = "false" then some (.bool false)
    else if word = "missing" ∨ word = "nothing" then some .missing
    else none) fun cs => bind_congr fun found => ?_
  obtain ⟨word, rest⟩ := found
  dsimp only
  split
  all_goals simp_all

/-- Characters of one class, at least one of them. -/
theorem Plain.lexical {α : Type} {is : Char → Bool} (h : Plain is) (f : List Char → α) :
    Lexical fun cs => if (cs.takeWhile is).isEmpty then none
      else some (f (cs.takeWhile is), cs.dropWhile is) where
  takes cs a rest found := by
    split at found
    · cases found
    · rename_i some
      cases found
      exact ⟨_, (List.takeWhile_append_dropWhile ..).symm, h.whole,
        fun empty => some (List.isEmpty_iff.mpr empty)⟩
  goesOn cs more _ := by
    simp only [takeWhile_newline h.newline, dropWhile_newline h.newline]
    split <;> rfl

theorem lexical_letters : Lexical letters? :=
  plain_alpha.lexical String.ofList

theorem lexical_digits : Lexical digits? := by
  have is (cs : List Char) : digits? cs = if (cs.takeWhile Char.isDigit).isEmpty then none
      else some (cs.takeWhile Char.isDigit, cs.dropWhile Char.isDigit) := by
    unfold digits? Decimal.spanDigits
    rw [List.span_eq_takeWhile_dropWhile]
    cases cs.takeWhile Char.isDigit <;> rfl
  exact funext is ▸ plain_digit.lexical id

/-- Whether there is a minus sign, with what comes after a sign. -/
def signed (cs : List Char) : Bool × List Char :=
  match cs with
  | '-' :: rest => (true, rest)
  | '+' :: rest => (false, rest)
  | _ => (false, cs)

theorem exists_signed (cs : List Char) : ∃ p, Whole p ∧ cs = p ++ (signed cs).2
    ∧ ∀ more, signed (cs ++ '\n' :: more) = ((signed cs).1, (signed cs).2 ++ '\n' :: more) := by
  unfold signed
  split
  · exact ⟨['-'], rfl, rfl, fun _ => rfl⟩
  · exact ⟨['+'], rfl, rfl, fun _ => rfl⟩
  · rename_i minus plus
    refine ⟨[], rfl, rfl, fun more => ?_⟩
    cases cs with
    | nil => rfl
    | cons c cs =>
        have minus : c ≠ '-' := fun is => minus cs (by rw [is])
        have plus : c ≠ '+' := fun is => plus cs (by rw [is])
        simp [minus, plus]

/-- What an exponent comes to after its sign. -/
def afterSign : Bool × List Char → Option (Int × List Char)
  | (negative, rest) =>
    match Decimal.spanDigits rest with
    | ([], _) => none
    | (digits, rest) =>
      let size := Decimal.natOfDigits digits
      some (if negative then -(size : Int) else size, rest)

theorem afterSign_eq (s : Bool × List Char) : afterSign s = (digits? s.2).map fun found =>
    (if s.1 then -(Decimal.natOfDigits found.1 : Int) else Decimal.natOfDigits found.1,
      found.2) := by
  obtain ⟨negative, rest⟩ := s
  unfold afterSign digits?
  dsimp only
  generalize Decimal.spanDigits rest = found
  obtain ⟨digits, rest⟩ := found
  cases digits <;> rfl

theorem exponentPart?_cons (c : Char) (cs : List Char) : Decimal.exponentPart? (c :: cs)
    = if c = 'e' ∨ c = 'E' then
        (digits? (signed cs).2).map fun found =>
          (if (signed cs).1 then -(Decimal.natOfDigits found.1 : Int)
            else Decimal.natOfDigits found.1, found.2)
      else none := by
  by_cases marker : c = 'e' ∨ c = 'E'
  · rw [if_pos marker]
    rw [← afterSign_eq]
    rcases marker with rfl | rfl <;> rfl
  · rw [if_neg marker]
    rw [not_or] at marker
    simp [Decimal.exponentPart?, marker]

theorem lexical_exponent : Lexical Decimal.exponentPart? where
  takes cs a rest found := by
    cases cs with
    | nil => cases found
    | cons c cs =>
        rw [exponentPart?_cons] at found
        split at found
        · rename_i marker
          obtain ⟨⟨digits, rest'⟩, read, same⟩ := Option.map_eq_some_iff.mp found
          cases same
          obtain ⟨p, whole, is, -⟩ := exists_signed cs
          obtain ⟨q, is', whole', -⟩ := lexical_digits.takes _ _ _ read
          refine ⟨c :: (p ++ q), by rw [is, is']; simp, ?_, by simp⟩
          refine Whole.append (p := [c]) ?_ (whole.append whole')
          rcases marker with rfl | rfl <;> rfl
        · cases found
  goesOn cs more settled := by
    cases cs with
    | nil => rfl
    | cons c cs =>
        rw [List.cons_append, exponentPart?_cons, exponentPart?_cons]
        split
        · rename_i marker
          obtain ⟨p, whole, is, goes⟩ := exists_signed cs
          have settled' : Settled (signed cs).2 := by
            rw [is, ← List.cons_append] at settled
            refine (Whole.settled_append (p := c :: p) ?_).mp settled
            refine Whole.append (p := [c]) ?_ whole
            rcases marker with rfl | rfl <;> rfl
          rw [goes more, lexical_digits.goesOn _ more settled']
          cases digits? (signed cs).2 <;> rfl
        · rfl

theorem lexical_float : Lexical float? where
  takes cs a rest found := by
    obtain ⟨⟨whole, mid⟩, first, found⟩ := Option.bind_eq_some_iff.mp found
    obtain ⟨p, is, plain, takes⟩ := lexical_digits.takes _ _ _ first
    suffices later : ∃ q, mid = q ++ rest ∧ Whole q by
      obtain ⟨q, is', plain'⟩ := later
      exact ⟨p ++ q, by rw [is, is', List.append_assoc], plain.append plain',
        fun empty => takes (List.append_eq_nil_iff.mp empty).1⟩
    dsimp only at found
    split at found
    · rename_i mid
      obtain ⟨⟨fraction, after⟩, second, found⟩ := Option.bind_eq_some_iff.mp found
      obtain ⟨q, is', plain', -⟩ := lexical_digits.takes _ _ _ second
      rw [is']
      have point : Whole ('.' :: q) := Whole.append (p := ['.']) rfl plain'
      dsimp only at found
      split at found
      · rename_i exponent rest third
        cases found
        obtain ⟨r, rfl, plain'', -⟩ := lexical_exponent.takes _ _ _ third
        exact ⟨'.' :: q ++ r, by simp, point.append plain''⟩
      · cases found
        exact ⟨'.' :: q, rfl, point⟩
    · obtain ⟨⟨exponent, after⟩, second, found⟩ := Option.bind_eq_some_iff.mp found
      cases found
      obtain ⟨q, is, plain', -⟩ := lexical_exponent.takes _ _ _ second
      exact ⟨q, is, plain'⟩
  goesOn cs more settled := by
    unfold float?
    rw [lexical_digits.goesOn cs more settled]
    cases first : digits? cs with
    | none => rfl
    | some found =>
        obtain ⟨whole, mid⟩ := found
        have settled' := lexical_digits.settled first settled
        cases mid with
        | nil => rfl
        | cons c mid =>
            by_cases point : c = '.'
            · subst point
              have fraction := lexical_digits.goesOn mid more settled'
              simp only [Option.map_some, Option.bind_eq_bind, Option.bind_some, List.cons_append,
                fraction]
              cases second : digits? mid with
              | none => rfl
              | some found =>
                  have exponent := lexical_exponent.goesOn found.2 more
                    (lexical_digits.settled second settled')
                  simp only [Option.map_some, Option.bind_some, exponent]
                  cases Decimal.exponentPart? found.2 <;> rfl
            · have exponent := lexical_exponent.goesOn (c :: mid) more settled'
              rw [List.cons_append] at exponent
              simp only [Option.map_some, Option.bind_eq_bind, Option.bind_some, List.cons_append,
                List.cons.injEq, point, false_and, imp_self, implies_true, exponent]
              cases Decimal.exponentPart? (c :: mid) <;> rfl

theorem quotedBody?_some {body : List Char} (found : quotedBody? cs = some (body, rest)) :
    ∃ p, cs = p ++ rest ∧ Quoting.text.after p = .outside ∧ ∀ more,
      quotedBody? (cs ++ more) = some (body, rest ++ more) := by
  fun_induction quotedBody? cs generalizing body rest with
  | case1 => cases found
  | case2 cs =>
      cases found
      exact ⟨['"'], rfl, rfl, fun _ => rfl⟩
  | case3 => cases found
  | case4 c cs ih =>
      obtain ⟨⟨body', rest'⟩, inner, same⟩ := Option.map_eq_some_iff.mp found
      cases same
      obtain ⟨p, is, ends, goes⟩ := ih inner
      exact ⟨'\\' :: c :: p, by rw [is]; rfl, ends, fun more => by
        simp [quotedBody?, goes more]⟩
  | case5 c cs quote single escape ih =>
      obtain ⟨⟨body', rest'⟩, inner, same⟩ := Option.map_eq_some_iff.mp found
      cases same
      obtain ⟨p, is, ends, goes⟩ := ih inner
      have backslash : c ≠ '\\' := by
        rintro rfl
        cases cs with
        | nil => exact single rfl rfl
        | cons d cs => exact escape d cs rfl rfl
      refine ⟨c :: p, by rw [is]; rfl, ?_, fun more => ?_⟩
      · rw [Quoting.after_cons, Quoting.next, if_neg quote, if_neg backslash, ends]
      · rw [List.cons_append, quotedBody?, goes more]
        · rfl
        · exact quote
        · exact fun is => absurd is backslash
        · exact fun _ _ is => absurd is backslash

theorem quotedBody?_none (none : quotedBody? cs = none) :
    Quoting.text.after cs = .text ∨ Quoting.text.after cs = .escaped := by
  fun_induction quotedBody? cs with
  | case1 => exact .inl rfl
  | case2 => cases none
  | case3 => exact .inr rfl
  | case4 c cs ih => exact ih (Option.map_eq_none_iff.mp none)
  | case5 c cs quote single escape ih =>
      have backslash : c ≠ '\\' := by
        rintro rfl
        cases cs with
        | nil => exact single rfl rfl
        | cons d cs => exact escape d cs rfl rfl
      rw [Quoting.after_cons, Quoting.next, if_neg quote, if_neg backslash]
      exact ih (Option.map_eq_none_iff.mp none)

theorem quoted?_cons (c : Char) (cs : List Char) :
    quoted? (c :: cs) = if c = '"' then
      (quotedBody? cs).map fun found => (String.ofList found.1, found.2) else none := by
  by_cases quote : c = '"'
  · subst quote
    rfl
  · simp [quoted?, quote]

theorem lexical_quoted : Lexical quoted? where
  takes cs a rest found := by
    cases cs with
    | nil => cases found
    | cons c cs =>
        rw [quoted?_cons] at found
        split at found
        · rename_i quote
          obtain ⟨⟨body, rest'⟩, inner, same⟩ := Option.map_eq_some_iff.mp found
          cases same
          obtain ⟨p, is, ends, -⟩ := quotedBody?_some inner
          exact ⟨c :: p, by rw [is]; rfl, by rw [Whole, quote]; exact ends, by simp⟩
        · cases found
  goesOn cs more settled := by
    cases cs with
    | nil => rfl
    | cons c cs =>
        rw [List.cons_append, quoted?_cons, quoted?_cons]
        split
        · rename_i quote
          cases inner : quotedBody? cs with
          | none =>
              rw [Settled, quote] at settled
              change Quoting.text.after cs = _ ∨ Quoting.text.after cs = _ at settled
              rcases quotedBody?_none inner with ends | ends <;> simp [ends] at settled
          | some found =>
              obtain ⟨p, is, ends, goes⟩ := quotedBody?_some inner
              simp [goes]
        · rfl

theorem lexical_character : Lexical character? where
  takes cs a rest found := by
    unfold character? at found
    split at found
    · rename_i c rest'
      split at found
      · cases found
        exact ⟨['\'', '\\', c, '\''], rfl, rfl, by simp⟩
      · cases found
    · rename_i c rest' escape
      split at found
      · cases found
      · cases found
        refine ⟨['\'', c, '\''], rfl, ?_, by simp⟩
        by_cases backslash : c = '\\'
        · subst backslash
          exact (escape rfl).elim
        · simp [Whole, Quoting.next, backslash]
    · cases found
  goesOn cs more settled := by
    rcases cs with - | ⟨c, cs⟩
    · rfl
    · by_cases quote : c = '\''
      · subst quote
        rcases cs with - | ⟨d, - | ⟨e, cs⟩⟩
        · simp [Settled, Quoting.next] at settled
        · by_cases escape : d = '\\' <;> simp [Settled, Quoting.next, escape] at settled
        · by_cases escape : d = '\\'
          · subst escape
            rcases cs with - | ⟨f, cs⟩
            · simp [Settled, Quoting.next] at settled
            · by_cases quote : f = '\'' <;> simp [character?, quote]
          · by_cases quote : e = '\'' <;> by_cases empty : d = '\'' <;>
              simp [character?, escape, quote, empty]
      · rw [List.cons_append, character?_of_head quote, character?_of_head quote]
        rfl

/-- The first of several symbols, with what it stands for and whether there was a dot before it. -/
def symbol? {α : Type} (symbols : List (String × α)) (dotted : Bool) (cs : List Char) :
    Option ((α × Bool) × List Char) :=
  symbols.findSome? fun (symbol, op) =>
    (expect? symbol.toList cs).map fun (_, rest) => ((op, dotted), rest)

section

variable {α : Type} {symbols : List (String × α)} {dots : Bool}
  (plain : ∀ symbol ∈ symbols, Lexical (expect? symbol.1.toList))

theorem operator?_cons (c : Char) (cs : List Char) : operator? dots symbols (c :: cs)
    = if c = '.' ∧ dots then symbol? symbols true cs else symbol? symbols false (c :: cs) := by
  by_cases point : c = '.'
  · subst point
    cases dots <;> rfl
  · simp [operator?, symbol?, point]

include plain

theorem lexical_symbol (dotted : Bool) : Lexical (symbol? symbols dotted) := by
  induction symbols with
  | nil => exact ⟨fun _ _ _ found => (by cases found), fun _ _ _ => rfl⟩
  | cons symbol symbols ih =>
      rw [List.forall_mem_cons] at plain
      have first : Lexical fun cs => (expect? symbol.1.toList cs).map fun found =>
          ((symbol.2, dotted), found.2) :=
        plain.1.filter (fun _ => some (symbol.2, dotted)) fun cs => by
          cases expect? symbol.1.toList cs <;> rfl
      have both (cs : List Char) : symbol? (symbol :: symbols) dotted cs
          = ((expect? symbol.1.toList cs).map (fun found => ((symbol.2, dotted), found.2)) <|>
            symbol? symbols dotted cs) := by
        cases found : expect? symbol.1.toList cs <;> simp [symbol?, found]
      exact funext both ▸ first.orElse (ih plain.2)

theorem lexical_operator : Lexical (operator? dots symbols) where
  takes cs a rest found := by
    cases cs with
    | nil => exact (lexical_symbol plain false).takes [] a rest found
    | cons c cs =>
        rw [operator?_cons] at found
        split at found
        · rename_i point
          obtain ⟨p, rfl, whole, -⟩ := (lexical_symbol plain true).takes cs a rest found
          exact ⟨c :: p, rfl, by rw [point.1]; exact Whole.append (p := ['.']) rfl whole, by simp⟩
        · exact (lexical_symbol plain false).takes (c :: cs) a rest found
  goesOn cs more settled := by
    cases cs with
    | nil =>
        exact (operator?_cons '\n' more).trans
          ((lexical_symbol plain false).goesOn [] more settled)
    | cons c cs =>
        rw [List.cons_append, operator?_cons, operator?_cons]
        split
        · rename_i point
          refine (lexical_symbol plain true).goesOn cs more ?_
          rw [point.1] at settled
          exact settled
        · exact (lexical_symbol plain false).goesOn (c :: cs) more settled

end

theorem lexical_directive : Lexical directive? :=
  lexical_letters.behind '@' (by decide) rfl fun c cs => by
    by_cases mark : c = '@'
    · rw [if_pos mark, mark, directive?]
    · rw [if_neg mark, directive?_of_head mark]

theorem lexical_column : Lexical columnName? :=
  (lexical_name.orElse lexical_quoted).behind ':' (by decide) rfl fun c cs => by
    by_cases mark : c = ':'
    · rw [if_pos mark, mark, columnName?]
    · rw [if_neg mark, columnName?_of_head mark]

theorem lexical_splat : Lexical splat? := by
  have dots : Lexical (expect? "...".toList) := lexical_expect (by decide) (by decide)
  have both : splat? = fun cs => (name? cs).bind fun found =>
      (expect? "...".toList found.2).map fun found' => (found.1, found'.2) := by
    funext cs
    refine bind_congr fun found => ?_
    rw [Option.map_eq_bind]
    rfl
  rw [both]
  exact lexical_name.seq dots fun name _ => name

end TablePlan.Grammar
