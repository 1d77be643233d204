import TablePlan.Proofs.Grammar.Enclosing
import TablePlan.Proofs.Grammar.Splitting

/-!
# Arguments alone and in a call

Every rule of the notation reads inside the parentheses of a call what it reads alone, and so the
two entry points read the same arguments.
-/

namespace TablePlan

namespace Grammar

open Reader

/-! ### Signs and constants -/

section

variable {n : Nat}

theorem enclosed_sign (word : String)
    (plain : word.toList ≠ [] ∧ ∀ c ∈ word.toList, c ∉ '\n' :: parenthesesAndMarks := by decide) :
    Enclosed n 1 (sign word) (sign word) := by
  refine enclosed_token (lexical_expect plain.1 fun c inside => ?_)
    (even_expect fun c inside => fun mark => plain.2 c inside (List.mem_cons_of_mem _ mark))
  have no := plain.2 c inside
  simp only [parenthesesAndMarks, List.mem_cons, not_or] at no ⊢
  exact ⟨no.1, no.2.2.2⟩

theorem enclosed_equals : Enclosed n 1 equals equals :=
  (enclosed_sign "=").andThen fun _ => (enclosed_sign "=").notAhead

theorem enclosed_report (fault : Fault) : Enclosed n 0 (report fault) (report fault) where
  balanced := by
    rintro c _ _ ⟨⟩
    exact ⟨[], rfl, balanced_nil, Nat.le_refl 0⟩
  same _ _ _ := rfl

theorem enclosed_integer (digits : List Char) : Enclosed n 0 (integer digits) (integer digits) := by
  unfold integer
  dsimp only
  split
  · exact .value _
  · exact (enclosed_report _).andThen fun _ => .value _

theorem enclosed_digits {α : Type} (f : Int64 → α) :
    Enclosed n 1 (f <$> (token digits? >>= integer)) (f <$> (token digits? >>= integer)) :=
  ((enclosed_token lexical_digits even_digits).andThen enclosed_integer).map f

theorem enclosed_name : Enclosed n 1 (token name?) (token name?) :=
  enclosed_token lexical_name even_name

theorem enclosed_quoted : Enclosed n 1 (token quoted?) (token quoted?) :=
  enclosed_token lexical_quoted even_quoted

theorem enclosed_directive : Enclosed n 1 (token directive?) (token directive?) :=
  enclosed_token lexical_directive even_directive

theorem enclosed_literal : Enclosed n 1 literal literal :=
  ((enclosed_token lexical_float even_float).map _).orElse
    ((enclosed_digits _).orElse
      ((enclosed_quoted.map _).orElse
        (((enclosed_token lexical_character even_character).map _).orElse
          (enclosed_token lexical_literalWord even_literalWord))))

/-! ### Operators -/

theorem enclosed_binaryOperator (dots : Bool) (ops : List BinaryOp) :
    Enclosed n 1 (binaryOperator dots ops) (binaryOperator dots ops) := by
  have plain (symbol) (inside : symbol ∈ symbolsOf ops) :
      Lexical (expect? symbol.1.toList) ∧ Even (expect? symbol.1.toList) := by
    obtain ⟨op, -, rfl⟩ := List.mem_map.mp inside
    cases op <;> exact ⟨lexical_expect (by decide) (by decide), even_expect (by decide)⟩
  exact enclosed_token (lexical_operator fun symbol inside => (plain symbol inside).1)
    (even_operator fun symbol inside => (plain symbol inside).2)

theorem enclosed_unaryOperator : Enclosed n 1 unaryOperator unaryOperator := by
  have plain (symbol) (inside : symbol ∈ unarySymbols) :
      Lexical (expect? symbol.1.toList) ∧ Even (expect? symbol.1.toList) := by
    simp only [unarySymbols, List.mem_cons, List.not_mem_nil, or_false] at inside
    rcases inside with rfl | rfl <;>
      exact ⟨lexical_expect (by decide) (by decide), even_expect (by decide)⟩
  exact enclosed_token (lexical_operator fun symbol inside => (plain symbol inside).1)
    (even_operator fun symbol inside => (plain symbol inside).2)

theorem Reader.Enclosed.chain {item item' : Reader Expr} (h : Enclosed n 1 item item') (dots : Bool)
    (ops : List BinaryOp) : Enclosed n 1 (chain dots ops item) (chain dots ops item') :=
  h.andThen fun _ => ((enclosed_binaryOperator dots ops).andThen fun _ => h.andThen fun _ =>
    .value _).many.andThen fun _ => .value _

theorem Reader.Enclosed.leftLevel {item item' : Reader Expr} (h : Enclosed n 1 item item')
    (dots : Bool) (ops : List BinaryOp) :
    Enclosed n 1 (leftLevel dots ops item) (leftLevel dots ops item') :=
  (h.chain dots ops).andThen fun _ => .value _

/-! ### Items between commas -/

variable {α : Type} {x y : Reader α}

theorem Reader.Enclosed.commaItems (h : Enclosed n 1 x y) :
    Enclosed n 1 (commaItems x) (commaItems y) :=
  h.andThen fun _ => ((enclosed_sign ",").andThen fun _ => h).many.andThen fun _ => .value _

theorem Reader.Enclosed.commaList (h : Enclosed n 1 x y) :
    Enclosed n 1 (commaList x) (commaList y) :=
  h.commaItems.andThen fun _ => (enclosed_sign ",").optional.andThen fun _ => .value _

end

/-! ### Expressions -/

/-- The readers that expressions nest through read before a parenthesis what they read alone. -/
structure Nested.Enclosed (n : Nat) (inner inner' : Nested) : Prop where
  expr : Reader.Enclosed n 1 inner.expr inner'.expr
  operand : Reader.Enclosed n 1 inner.operand inner'.operand
  element : Reader.Enclosed n 1 inner.element inner'.element
  directed : Reader.Enclosed n 1 inner.directed inner'.directed

section

variable {n : Nat} {inner inner' : Nested} (h : inner.Enclosed n inner')

include h

theorem enclosed_parenthesized :
    Enclosed (n + 1) 1 (parenthesized inner) (parenthesized inner') :=
  h.expr.parentheses

theorem enclosed_call : Enclosed (n + 1) 1 (call inner) (call inner') :=
  enclosed_name.andThen fun _ => (enclosed_sign ".").optional.andThen fun _ =>
    h.expr.commaItems.optional.parentheses.weaken (Nat.le_refl _) (Nat.zero_le 1)

theorem enclosed_directedOperand :
    Enclosed (n + 1) 1 (directedOperand inner) (directedOperand inner') :=
  enclosed_directive.opens fun _ => h.operand.andThen fun _ => .value _

theorem enclosed_indices : Enclosed (n + 1) 1 (indices inner) (indices inner') :=
  (enclosed_sign "[").opens fun _ => h.expr.commaItems.andThen fun _ =>
    (enclosed_sign "]").andThen fun _ => .value _

theorem enclosed_vector : Enclosed (n + 1) 1 (vector inner) (vector inner') :=
  (enclosed_sign "[").opens fun _ => h.expr.commaList.optional.andThen fun _ =>
    ((enclosed_sign "]").andThen fun _ => .value _).weaken (Nat.le_refl n) (Nat.zero_le 1)

theorem enclosed_matrix : Enclosed (n + 1) 1 (matrix inner) (matrix inner') := by
  refine (enclosed_sign "[").opens fun _ => h.element.many1.andThen (k := 0) fun first => ?_
  refine ((enclosed_sign ";").andThen fun _ => h.element.many1).many.andThen fun rest =>
    ((enclosed_sign "]").andThen (k := 0) fun _ => ?_).weaken (Nat.le_refl n) (Nat.zero_le 1)
  dsimp only
  split
  · exact (enclosed_report _).andThen fun _ => .value _
  · exact .value _

theorem enclosed_interpolation :
    Enclosed (n + 1) 1 (interpolation inner) (interpolation inner') := by
  have smaller {α : Type} {x y : Reader α} (h : Enclosed (n + 1) 1 x y) : Enclosed n 1 x y :=
    h.weaken (Nat.le_succ n) (Nat.le_refl 1)
  exact (enclosed_sign "$").opens fun _ =>
    ((smaller (enclosed_parenthesized h)).map _).orElse
      (((smaller (enclosed_vector h)).map _).orElse
        (((smaller (enclosed_matrix h)).map _).orElse
          ((enclosed_digits _).orElse ((enclosed_quoted.map _).orElse (enclosed_name.map _)))))

/-! ### Statements -/

theorem enclosed_assigned : Enclosed n 1 (assigned inner) (assigned inner') :=
  h.directed.orElse h.expr

theorem enclosed_assignment : Enclosed n 1 (assignment inner) (assignment inner') :=
  h.expr.andThen fun _ => enclosed_equals.andThen fun _ => (enclosed_assigned h).andThen fun _ =>
    .value _

theorem enclosed_tupleAssignment :
    Enclosed n 1 (tupleAssignment inner) (tupleAssignment inner') := by
  have item : Enclosed n 1 (tupleItem inner) (tupleItem inner') :=
    ((enclosed_token lexical_splat even_splat).map _).orElse h.expr
  exact item.andThen fun _ => ((enclosed_sign ",").andThen fun _ => item).many1.andThen fun _ =>
    enclosed_equals.andThen fun _ => (enclosed_assigned h).andThen fun _ => .value _

theorem enclosed_statement : Enclosed n 1 (statement inner) (statement inner') :=
  h.directed.orElse ((enclosed_tupleAssignment h).orElse ((enclosed_assignment h).orElse h.expr))

theorem enclosed_block : Enclosed (n + 1) 1 (block inner) (block inner') :=
  (enclosed_sign "begin").opens fun _ => ((enclosed_statement h).andThen fun _ =>
    (enclosed_sign ";").optional.andThen fun _ => .value _).many.andThen fun _ =>
      ((enclosed_sign "end").andThen fun _ => .value _).weaken (Nat.le_refl n) (Nat.zero_le 1)

theorem enclosed_directed : Enclosed (n + 1) 1 (directed inner) (directed inner') :=
  enclosed_directive.opens fun _ => (enclosed_statement h).andThen fun _ => .value _

/-! ### One level of nesting more -/

theorem enclosed_primary : Enclosed (n + 1) 1 (primary inner) (primary inner') :=
  (enclosed_directedOperand h).orElse ((enclosed_block h).orElse ((enclosed_call h).orElse
    ((enclosed_interpolation h).orElse
      (((enclosed_token lexical_column even_column).map _).orElse
        ((enclosed_literal.map _).orElse ((enclosed_vector h).orElse
          ((enclosed_matrix h).orElse ((enclosed_parenthesized h).orElse
            (enclosed_name.map _)))))))))

theorem enclosed_indexed : Enclosed (n + 1) 1 (indexed inner) (indexed inner') :=
  (enclosed_primary h).andThen fun _ => (enclosed_indices h).many.andThen fun _ => .value _

theorem enclosed_operand : Enclosed (n + 1) 1 (operand inner) (operand inner') := by
  have found : Enclosed (n + 1) (0 + 1) (operand inner) (operand inner') :=
    enclosed_unaryOperator.many.after fun _ => (enclosed_indexed h).andThen fun _ => .value _
  exact found

theorem enclosed_disjunction : Enclosed (n + 1) 1 (disjunction inner) (disjunction inner') := by
  have power : Enclosed (n + 1) 1 (power inner) (Grammar.power inner') :=
    ((enclosed_operand h).chain _ _).andThen fun _ => .value _
  exact ((((power.leftLevel _ _).leftLevel _ _).leftLevel _ _).leftLevel _ _).leftLevel _ _

theorem enclosed_expression : Enclosed (n + 1) 1 (expression inner) (expression inner') := by
  have branches : Enclosed (n + 1) 1
      (do sign "?"; let yes ← inner.expr; sign ":"; let no ← inner.expr; return (yes, no))
      (do sign "?"; let yes ← inner'.expr; sign ":"; let no ← inner'.expr; return (yes, no)) :=
    (enclosed_sign "?").opens fun _ => h.expr.andThen fun _ => (enclosed_sign ":").andThen
      fun _ => h.expr.andThen fun _ => .value _
  refine (enclosed_disjunction h).andThen fun cond =>
    branches.optional.andThen (k := 0) fun found => ?_
  cases found <;> exact .value _

end

/-- A depth that is enough for a text is enough for it before a parenthesis. -/
theorem nested_enclosed {d d' : Nat} (deep : d ≤ d') : (nested d).Enclosed d (nested d') := by
  -- No text has fewer than zero characters, and a level more takes a character more.
  induction d generalizing d' with
  | zero => exact ⟨.never, .never, .never, .never⟩
  | succ d ih =>
      obtain ⟨d', rfl⟩ : ∃ n, d' = n + 1 := ⟨d' - 1, by omega⟩
      have h := ih (Nat.le_of_succ_le_succ deep)
      exact ⟨enclosed_expression h, enclosed_operand h, enclosed_indexed h, enclosed_directed h⟩

/-! ### Arguments -/

section

variable {n : Nat} {inner inner' : Nested} (h : inner.Enclosed n inner')

include h

theorem enclosed_argument : Enclosed n 1 (argument inner) (argument inner') :=
  h.directed.orElse ((enclosed_assignment h).orElse h.expr)

theorem enclosed_namedOption : Enclosed n 1 (namedOption inner) (namedOption inner') :=
  enclosed_name.andThen fun _ => enclosed_equals.andThen fun _ => h.expr.andThen fun _ => .value _

theorem enclosed_arguments : Enclosed n 0 (arguments inner) (arguments inner') := by
  have options := (enclosed_sign (n := n) ";").andThen fun _ =>
    (enclosed_namedOption h).commaList.optional
  exact (enclosed_argument h).commaList.optional.andThen fun _ => options.optional.andThen
    fun _ => .value _

end

/-! ### Kinds -/

/-- Letters, with an exclamation mark after them or without. -/
def IsKindWord (word : String) : Prop :=
  ∃ letters, letters ≠ [] ∧ (∀ c ∈ letters, c.isAlpha)
    ∧ (word.toList = letters ∨ word.toList = letters ++ ['!'])

theorem letters?_append {letters : List Char} (some : letters ≠ []) (all : ∀ c ∈ letters, c.isAlpha)
    {c : Char} (other : c.isAlpha = false) (rest : List Char) :
    letters? (letters ++ c :: rest) = .some (String.ofList letters, c :: rest) := by
  have taken : (letters ++ c :: rest).takeWhile Char.isAlpha = letters := by
    rw [List.takeWhile_append_of_pos all, List.takeWhile_cons_of_neg (by simp [other]),
      List.append_nil]
  have left : (letters ++ c :: rest).dropWhile Char.isAlpha = c :: rest := by
    rw [List.dropWhile_append_of_pos all, List.dropWhile_cons_of_neg (by simp [other])]
  simp [letters?, taken, left, some]

theorem IsKindWord.skipBlank {word : String} (h : IsKindWord word) (rest : List Char) :
    skipBlank false (word.toList ++ rest) = word.toList ++ rest := by
  obtain ⟨letters, some, all, is⟩ := h
  obtain ⟨c, t, start, alpha⟩ : ∃ c t, word.toList = c :: t ∧ c.isAlpha := by
    cases letters with
    | nil => exact absurd rfl some
    | cons c t =>
        rw [List.forall_mem_cons] at all
        obtain is | is := is
        · exact ⟨c, t, is, all.1⟩
        · exact ⟨c, t ++ ['!'], is, all.1⟩
  rw [start]
  exact skipBlank_of_head (not_mem_of_all (p := Char.isAlpha) (by decide) alpha)

/-- The word of a kind is read up to the parenthesis. -/
theorem IsKindWord.reads {word : String} (h : IsKindWord word) (rest : List Char) :
    (token kindWord?).Reads (word.toList ++ '(' :: rest) word ('(' :: rest) := by
  refine token_reads (h.skipBlank _) ?_
  obtain ⟨letters, some, all, is | is⟩ := h
  · have plain := letters?_append some all (c := '(') rfl rest
    rw [kindWord?, is, plain, ← is, String.ofList_toList]
    rfl
  · have marked := letters?_append some all (c := '!') rfl ('(' :: rest)
    have same : String.ofList letters ++ "!" = word := by
      rw [← String.toList_inj, String.toList_append, String.toList_ofList, is]
      rfl
    rw [kindWord?, is, List.append_assoc, List.singleton_append, marked, ← same]
    rfl

end Grammar

open Grammar Reader in
/-- What is read as a list of arguments is read as the same arguments between the parentheses of
every call, of which the second stands on a new line. -/
theorem Call.read_enclosing {text kind : String} {a : Arguments}
    (read : Arguments.read text = .ok a) (word : IsKindWord kind) :
    Call.read ("@" ++ kind ++ "(" ++ text ++ "\n)") = .ok ⟨kind, a⟩ := by
  obtain ⟨rest, blank, found⟩ := readAll_iff.mp read
  refine readAll_iff.mpr ⟨[], rfl, ?_⟩
  generalize whole : "@" ++ kind ++ "(" ++ text ++ "\n)" = source
  have chars : source.toList = '@' :: (kind.toList ++ '(' :: (text.toList ++ ['\n', ')'])) := by
    rw [← whole]
    simp
  have deep : text.toList.length + 1 ≤ source.toList.length + 1 := by
    rw [chars]
    simp only [List.length_cons, List.length_append]
    omega
  have same := enclosed_arguments (nested_enclosed deep)
  have closes : Closes 0 text.toList := by
    obtain ⟨p, is, balanced, -⟩ := same.balanced _ _ _ found
    change text.toList = p ++ rest at is
    rw [is, Closes.append balanced]
    exact .of_blank blank
  have inside := (same.same ⟨text.toList, none⟩ closes (Nat.lt_succ_self _)).reads found
  have opens : sign "@" ⟨source.toList, none⟩ = some ((), ⟨_, none⟩) :=
    sign_reads (by rw [chars]; rfl) none
  have named := word.reads (text.toList ++ ['\n', ')']) none
  have last : sign ")" ⟨rest ++ ['\n', ')'], none⟩ = some ((), ⟨[], none⟩) :=
    sign_reads (by rw [skipBlank_newline blank]; rfl) none
  exact (bind_some opens).trans ((bind_some named).trans ((bind_some (sign_reads rfl none)).trans
    ((bind_some inside).trans (bind_some last))))

set_option maxRecDepth 4000 in
/-- The new line ends a comment, and parentheses in comments and between quotes do not count. -/
theorem Call.read_commented :
    Call.read ("@" ++ "rsubset!" ++ "(" ++ ":x .== f(\")\"); skipmissing = true # (or" ++ "\n)")
      = .ok ⟨"rsubset!",
        ⟨[.binary .eq (.column (.name "x")) (.call "f" [.literal (.string ")")] false) true],
          [("skipmissing", .literal (.bool true))]⟩⟩ :=
  Call.read_enclosing rfl ⟨"rsubset".toList, by decide, by decide, .inr rfl⟩

end TablePlan
