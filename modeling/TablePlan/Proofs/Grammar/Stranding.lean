import TablePlan.Proofs.Grammar.Continuation

/-!
# Reading before more arguments

Every rule of the notation reads before more arguments what it reads alone, with one exception: an
assignment to several targets goes on from the end of an argument through the arguments after it up
to an equals sign. Where it is done no block can end, so only a directive is left with it.
-/

namespace TablePlan.Grammar

open Reader

/-! ### Where nothing can go on -/

/-- Where neither an expression nor a statement begins and no bracket or block ends. -/
inductive Stop : List Char → Prop
  | nothing : Stop []
  | comma (t : List Char) : Stop (',' :: t)
  | equals (t : List Char) : Stop ('=' :: t)
  | dots (t : List Char) : Stop ('.' :: '.' :: '.' :: t)

/-- Nothing but blank space comes before such a place. -/
def Dead (cs : List Char) : Prop :=
  Stop (skipBlank false cs)

/-- The end of the text or an equals sign comes next. -/
def Halted (cs : List Char) : Prop :=
  skipBlank false cs = [] ∨ ∃ t, skipBlank false cs = '=' :: t

theorem Halted.dead {cs : List Char} (h : Halted cs) : Dead cs := by
  unfold Dead
  obtain blank | ⟨t, blank⟩ := h <;> rw [blank]
  · exact .nothing
  · exact .equals t

section

variable {α : Type} {lexeme : List Char → Option (α × List Char)} {cs : List Char}

theorem Dead.token_refuses (dead : Dead cs) (nothing : lexeme [] = none)
    (other : ∀ c ∈ [',', '=', '.'], ∀ t, lexeme (c :: t) = none) : (token lexeme).Refuses cs := by
  unfold Dead at dead
  generalize blank : skipBlank false cs = t at dead
  cases dead with
  | nothing => exact Grammar.token_refuses blank nothing
  | comma | equals | dots => exact Grammar.token_refuses blank (other _ (by simp) _)

theorem Dead.sign_refuses {word : String} (dead : Dead cs)
    (other : word.toList.head?.any (· ∉ [',', '=', '.']) := by decide) :
    (sign word).Refuses cs := by
  cases whole : word.toList with
  | nil =>
      rw [whole] at other
      cases other
  | cons d ds =>
      rw [whole] at other
      have other : d ∉ [',', '=', '.'] := by simpa using other
      refine dead.token_refuses (by rw [whole]; rfl) fun c mark t => ?_
      have differs : d ≠ c := fun same => other (same ▸ mark)
      simp [whole, expect?, differs]

theorem Dead.unary_refuses (dead : Dead cs) : unaryOperator.Refuses cs := by
  unfold Dead at dead
  generalize blank : skipBlank false cs = t at dead
  cases dead <;> exact Grammar.token_refuses blank rfl

theorem Dead.primary_refuses (dead : Dead cs) (inner : Nested) : (primary inner).Refuses cs := by
  have directive : (directedOperand inner).Refuses cs :=
    (dead.token_refuses rfl fun c mark t => directive?_of_head (by rintro rfl; simp at mark)).bind
  have named : (token name?).Refuses cs := dead.token_refuses rfl fun c mark t =>
    name?_of_start (by revert c; decide)
  have column : (token columnName?).Refuses cs := dead.token_refuses rfl fun c mark t =>
    columnName?_of_head (by rintro rfl; simp at mark)
  have constant : literal.Refuses cs :=
    (dead.token_refuses rfl fun c mark t => float?_of_start (by revert c; decide)).map.or
      ((dead.token_refuses rfl fun c mark t => digits?_of_start (by revert c; decide)).bind.map.or
        ((dead.token_refuses rfl fun c mark t =>
            quoted?_of_head (by rintro rfl; simp at mark)).map.or
          ((dead.token_refuses rfl fun c mark t =>
              character?_of_head (by rintro rfl; simp at mark)).map.or
            (dead.token_refuses rfl fun c mark t => literalWord?_of_start (by revert c; decide)))))
  exact directive.or (dead.sign_refuses.bind.or (named.bind.or (dead.sign_refuses.bind.or
    (column.map.or (constant.map.or (dead.sign_refuses.bind.or (dead.sign_refuses.bind.or
      (dead.sign_refuses.bind.or named.map))))))))

theorem Dead.expr_refuses (dead : Dead cs) (depth : Nat) : (nested depth).expr.Refuses cs :=
  expr_refuses_of_primary dead.primary_refuses dead.unary_refuses depth

theorem Dead.directed_refuses (dead : Dead cs) (depth : Nat) :
    (nested depth).directed.Refuses cs := by
  cases depth with
  | zero => exact refuses_failure cs
  | succ depth =>
      exact (dead.token_refuses rfl fun c mark t =>
        directive?_of_head (by rintro rfl; simp at mark)).bind

end

theorem Dead.item_refuses {cs : List Char} (dead : Dead cs) (depth : Nat) :
    (tupleItem (nested depth)).Refuses cs := by
  have splat : (token splat?).Refuses cs := dead.token_refuses rfl fun c mark t => by
    rw [splat?, name?_of_start (by revert c; decide)]
    rfl
  exact splat.map.or (dead.expr_refuses depth)

theorem Dead.statement_refuses {cs : List Char} (dead : Dead cs) (depth : Nat) :
    (statement (nested depth)).Refuses cs :=
  (dead.directed_refuses depth).or ((dead.item_refuses depth).bind.or
    ((dead.expr_refuses depth).bind.or (dead.expr_refuses depth)))

/-! ### Signs and constants -/

section

variable {E : Context} {n : Nat} (goes : E.Continues)

include goes

theorem steady_sign (word : String)
    (plain : word.toList ≠ [] ∧ ∀ c ∈ word.toList, c ∉ '\n' :: marks := by decide)
    (head : word.toList.head?.any (· ≠ ',') := by decide) :
    Steady E n 1 (sign word) (sign word) := by
  refine steady_token goes (lexical_expect plain.1 plain.2) fun more => ?_
  cases whole : word.toList with
  | nil => exact absurd whole plain.1
  | cons c t =>
      rw [whole] at head
      have other : ¬ c = ',' := by simpa using head
      simp [expect?, other]

theorem steady_equals : Steady E n 1 equals equals :=
  (steady_sign goes "=").andThen fun _ => (steady_sign goes "=").notAhead

omit goes in
theorem steady_report (fault : Fault) : Steady E n 0 (report fault) (report fault) := by
  have takes : (report fault).Takes 0 := by
    rintro c a c' ⟨⟩
    exact ⟨[], rfl, whole_nil, Nat.le_refl 0⟩
  refine steady takes takes fun c _ _ => ?_
  obtain ⟨more, earlier⟩ := E
  obtain ⟨rest, found⟩ := c
  cases earlier <;> rfl

omit goes in
theorem steady_integer (digits : List Char) : Steady E n 0 (integer digits) (integer digits) := by
  unfold integer
  dsimp only
  split
  · exact steady_pure _
  · exact (steady_report _).andThen fun _ => steady_pure _

theorem steady_digits {α : Type} (f : Int64 → α) :
    Steady E n 1 (f <$> (token digits? >>= integer)) (f <$> (token digits? >>= integer)) :=
  ((steady_token goes lexical_digits fun _ => rfl).andThen steady_integer).map f

theorem steady_literal : Steady E n 1 literal literal :=
  ((steady_token goes lexical_float fun _ => rfl).map _).orElse
    ((steady_digits goes _).orElse
      (((steady_token goes lexical_quoted fun _ => rfl).map _).orElse
        (((steady_token goes lexical_character fun _ => rfl).map _).orElse
          (steady_token goes lexical_literalWord fun _ => rfl))))

/-! ### Operators -/

omit goes in
theorem steady_chain {dots : Bool} {ops : List BinaryOp} {item item' : Reader Expr}
    (op : Steady E n 1 (binaryOperator dots ops) (binaryOperator dots ops))
    (h : Steady E n 1 item item') : Steady E n 1 (chain dots ops item) (chain dots ops item') :=
  h.andThen fun _ => (op.andThen fun _ => h.andThen fun _ => steady_pure _).repeated.andThen
    fun _ => steady_pure _

theorem steady_binaryOperator {dots : Bool} {ops : List BinaryOp}
    (level : (dots, ops) ∈ (true, [.pow]) :: levels) :
    Steady E n 1 (binaryOperator dots ops) (binaryOperator dots ops) := by
  have plain : ∀ symbol ∈ symbolsOf ops, Lexical (expect? symbol.1.toList) := by
    intro symbol inside
    obtain ⟨op, -, rfl⟩ := List.mem_map.mp inside
    cases op <;> exact lexical_expect (by decide) (by decide)
  refine steady_token goes (lexical_operator plain) ?_
  exact (absent_operator level).mark ',' (by simp)

theorem steady_unaryOperator : Steady E n 1 unaryOperator unaryOperator := by
  refine steady_token goes (lexical_operator fun symbol inside => ?_) fun _ => rfl
  simp only [unarySymbols, List.mem_cons, List.not_mem_nil, or_false] at inside
  rcases inside with rfl | rfl <;> exact lexical_expect (by decide) (by decide)

end

/-! ### Items between commas -/

/-- A comma with an item after it. -/
def afterComma {α : Type} (item : Reader α) : Reader α := do
  sign ","
  item

/-- The items between commas go on through the text `more` up to where `D` holds. -/
def RunsOn {α : Type} (D : Cursor → Prop) (more : List Char) (item : Reader α) : Prop :=
  ∀ cs fault, skipBlank false cs = [] →
    ∃ as c', Loop (afterComma item) ⟨cs ++ more, fault⟩ as c' ∧ D c'

section

variable {α : Type} {D : Cursor → Prop} {E : Context} {n m : Nat} {x y : Reader α}
  {c c' : Cursor} {as : List α}

theorem lexical_comma : Lexical (expect? ",".toList) :=
  lexical_expect (by decide) (by decide)

theorem takes_afterComma (h : x.Takes m) : (afterComma x).Takes 1 :=
  ((takes_token lexical_comma).bind fun _ => h).weaken (Nat.le_add_right 1 m)

theorem sign_refuses_blank {word : String} {cs : List Char} (some : word.toList ≠ [])
    (blank : skipBlank false cs = []) : (sign word).Refuses cs :=
  sign_refuses blank fun begins => some (List.prefix_nil.mp begins)

/-- Items between commas are the same before `E`, or they run on into it. -/
theorem commas_loop (goes : E.Continues) (h : Steady E n m x y) (runs : RunsOn D E.more y)
    (loop : Loop (afterComma x) c as c') (clear : Clear c.rest) (short : c.rest.length < n) :
    Loop (afterComma y) (c.before E) as (c'.before E) ∧ Agree E (sign ",") (sign ",") c'
      ∨ skipBlank false c'.rest = []
        ∧ ∃ bs c₂, Loop (afterComma y) (c.before E) bs c₂ ∧ D c₂ := by
  have agrees {c : Cursor} (clear : Clear c.rest) (short : c.rest.length < n)
      (more : skipBlank false c.rest ≠ []) : Agree E (afterComma x) (afterComma y) c := by
    refine (agree_token goes lexical_comma clear more).then fun _ c₁ read => ?_
    obtain ⟨clear', shorter⟩ := (takes_token lexical_comma).left read clear
    exact h.agree clear' (by omega)
  induction loop with
  | @stop c no =>
      by_cases more : skipBlank false c.rest = []
      · exact .inr ⟨more, runs c.rest _ more⟩
      · exact .inl ⟨.stop ((agrees clear short more).refuses no),
          agree_token goes lexical_comma clear more⟩
  | @next c c₁ c' a as first takes later ih =>
      obtain ⟨clear', -⟩ := (takes_afterComma h.takes).left first clear
      have more : skipBlank false c.rest ≠ [] := by
        intro blank
        have refuses : (sign ",").Refuses c.rest := sign_refuses_blank (by decide) blank
        rw [afterComma, refuses.bind c.fault] at first
        cases first
      have longer : (c₁.before E).rest.length < (c.before E).rest.length := by
        simp only [Cursor.before, List.length_append]
        omega
      have read := (agrees clear short more).reads first
      obtain ⟨same, comma⟩ | ⟨blank, bs, c₂, run, dead⟩ := ih clear' (takes.trans short)
      · exact .inl ⟨.next read longer same, comma⟩
      · exact .inr ⟨blank, a :: bs, c₂, .next read longer run, dead⟩

theorem commaItems_some {a : α} {c₁ : Cursor} (first : x c = some (a, c₁))
    (loop : Loop (afterComma x) c₁ as c') : commaItems x c = some (a :: as, c') :=
  (bind_some first).trans (bind_some (f := fun rest => pure (a :: rest)) loop.many)

theorem commaItems_none (first : x c = none) : commaItems x c = none :=
  bind_none first

/-- A list of items is the same before `E`, and so is what comes after it, or it runs on. -/
theorem commaItems_same (goes : E.Continues) (h : Steady E n 1 x y)
    (runs : RunsOn (fun c => Halted c.rest) E.more y)
    (clear : Clear c.rest) (short : c.rest.length < n) :
    (Agree E (commaItems x) (commaItems y) c
        ∧ ∀ as c', commaItems x c = some (as, c') → Agree E (sign ",") (sign ",") c')
      ∨ Strand Halted E (commaItems x) (commaItems y) c := by
  cases first : x c with
  | none =>
      have none := commaItems_none first
      refine .inl ⟨agree_none none (commaItems_none ((h.agree clear short).refuses first)), ?_⟩
      intro as c' read
      rw [none] at read
      cases read
  | some found =>
      obtain ⟨a, c₁⟩ := found
      have first' := (h.agree clear short).reads first
      obtain ⟨clear', shorter⟩ := h.takes.left first clear
      obtain ⟨as, c', loop⟩ := (takes_afterComma h.takes).loop c₁
      have read := commaItems_some first loop
      obtain ⟨same, comma⟩ | ⟨blank, bs, c₂, run, dead⟩ :=
        commas_loop goes h runs loop clear' (by omega)
      · refine .inl ⟨agree_some read (commaItems_some first' same), fun as' c'' read' => ?_⟩
        rw [read] at read'
        cases read'
        exact comma
      · exact .inr ⟨a :: as, c', a :: bs, c₂, read, .inl blank, commaItems_some first' run, dead⟩

theorem takes_commaItems (h : x.Takes 1) : (commaItems x).Takes 1 :=
  h.bind fun _ => (takes_afterComma h).many.bind fun _ => takes_pure _

theorem carries_commaItems (goes : E.Continues) (h : Steady E n 1 x y)
    (runs : RunsOn (fun c => Halted c.rest) E.more y) :
    Carries Halted E n 1 (commaItems x) (commaItems y) :=
  ⟨takes_commaItems h.takes, takes_commaItems h.takes', fun _ clear short =>
    (commaItems_same goes h runs clear short).imp_left And.left⟩

theorem Halted.comma_refuses {cs : List Char} (h : Halted cs) : (sign ",").Refuses cs := by
  obtain blank | ⟨t, blank⟩ := h
  · exact sign_refuses_blank (by decide) blank
  · exact sign_refuses_of_head blank (by decide) (by decide)

/-- A list of items that a comma may follow. -/
theorem carries_commaList (goes : E.Continues) (h : Steady E n 1 x y)
    (runs : RunsOn (fun c => Halted c.rest) E.more y) :
    Carries Halted E n 1
      (do let items ← commaItems x; let _ ← optional (sign ","); return items)
      (do let items ← commaItems y; let _ ← optional (sign ","); return items) := by
  have comma : (optional (sign ",")).Takes 0 := (takes_token lexical_comma).optional
  have takes {x : Reader α} (h : x.Takes 1) :
      (do let items ← commaItems x; let _ ← optional (sign ","); return items).Takes 1 :=
    (takes_commaItems h).bind fun _ => comma.bind fun _ => takes_pure _
  refine ⟨takes h.takes, takes h.takes', fun c clear short => ?_⟩
  obtain ⟨agree, after⟩ | ⟨as, c₁, bs, c₂, left, dead, right, dead'⟩ :=
    commaItems_same goes h runs clear short
  · refine agree.bind fun as c' read => ?_
    exact (after as c' read).optional.bind fun _ _ _ => .inl rfl
  · have stops := dead.comma_refuses.optional c₁.fault
    have stops' := dead'.comma_refuses.optional c₂.fault
    exact .inr ⟨as, c₁, bs, c₂, (bind_some left).trans (bind_some stops), dead,
      (bind_some right).trans (bind_some stops'), dead'⟩

end

/-! ### Expressions -/

/-- The readers that expressions nest through read before `E` what they read alone; only a directive
can strand. -/
structure Nested.Carries (P : Prop) (E : Context) (n : Nat) (inner inner' : Nested) : Prop where
  expr : Steady E n 1 inner.expr inner'.expr
  operand : Steady E n 1 inner.operand inner'.operand
  element : Steady E n 1 inner.element inner'.element
  directed : Reader.Carries (fun cs => P ∧ Dead cs) E n 1 inner.directed inner'.directed

section

variable {P : Prop} {E : Context} {n : Nat} {inner inner' : Nested} (goes : E.Continues)
  (h : inner.Carries P E n inner')

section

include goes h

theorem steady_parenthesized :
    Steady E (n + 1) 1 (parenthesized inner) (parenthesized inner') :=
  (steady_sign goes "(").opens fun _ => h.expr.andThen fun e =>
    (steady_sign goes ")").andThen fun _ => steady_pure e

theorem steady_directedOperand :
    Steady E (n + 1) 1 (directedOperand inner) (directedOperand inner') :=
  (steady_token goes lexical_directive fun _ => rfl).opens fun _ => h.operand.andThen fun _ =>
    steady_pure _

theorem steady_matrix : Steady E (n + 1) 1 (matrix inner) (matrix inner') := by
  refine (steady_sign goes "[").opens fun _ => h.element.repeated1.andThen (k := 0) fun first => ?_
  have rows : Steady E n 1 (do sign ";"; many1 inner.element) (do sign ";"; many1 inner'.element) :=
    (steady_sign goes ";").andThen fun _ => h.element.repeated1
  refine rows.repeated.andThen fun rest => (steady_sign goes "]").andThen (k := 0) fun _ => ?_
  dsimp only
  split
  · exact (steady_report _).andThen fun _ => steady_pure _
  · exact steady_pure _

end

variable (runs : RunsOn (fun c => Halted c.rest) E.more inner'.expr)

include goes h runs

theorem steady_indices : Steady E (n + 1) 1 (indices inner) (indices inner') :=
  (steady_sign goes "[").opens fun _ => (carries_commaItems goes h.expr runs).closing
    (fun _ => (steady_sign goes "]").andThen fun _ => steady_pure _)
    fun _ _ halted => ⟨halted.dead.sign_refuses.bind, halted.dead.sign_refuses.bind⟩

theorem steady_vector : Steady E (n + 1) 1 (vector inner) (vector inner') :=
  (steady_sign goes "[").opens fun _ => (carries_commaList goes h.expr runs).optional.closing
    (fun _ => (steady_sign goes "]").andThen fun _ => steady_pure _)
    fun _ _ halted => ⟨halted.dead.sign_refuses.bind, halted.dead.sign_refuses.bind⟩

theorem steady_call : Steady E (n + 1) 1 (call inner) (call inner') :=
  (steady_token goes lexical_name fun _ => rfl).opens fun _ =>
    (steady_sign goes ".").optional.andThen fun _ => (steady_sign goes "(").andThen fun _ =>
      (carries_commaItems goes h.expr runs).optional.closing
        (fun _ => (steady_sign goes ")").andThen fun _ => steady_pure _)
        fun _ _ halted => ⟨halted.dead.sign_refuses.bind, halted.dead.sign_refuses.bind⟩

theorem steady_interpolation : Steady E (n + 1) 1 (interpolation inner) (interpolation inner') := by
  have smaller {α : Type} {x y : Reader α} (h : Steady E (n + 1) 1 x y) : Steady E n 1 x y :=
    h.weaken (fun _ => id) (Nat.le_succ n) (Nat.le_refl 1)
  exact (steady_sign goes "$").opens fun _ =>
    ((smaller (steady_parenthesized goes h)).map _).orElse
      (((smaller (steady_vector goes h runs)).map _).orElse
        (((smaller (steady_matrix goes h)).map _).orElse ((steady_digits goes _).orElse
          (((steady_token goes lexical_quoted fun _ => rfl).map _).orElse
            ((steady_token goes lexical_name fun _ => rfl).map _)))))

theorem steady_primary (block : Steady E (n + 1) 1 (block inner) (Grammar.block inner')) :
    Steady E (n + 1) 1 (primary inner) (primary inner') :=
  (steady_directedOperand goes h).orElse (block.orElse ((steady_call goes h runs).orElse
    ((steady_interpolation goes h runs).orElse
      (((steady_token goes lexical_column fun _ => rfl).map _).orElse
        (((steady_literal goes).map _).orElse ((steady_vector goes h runs).orElse
          ((steady_matrix goes h).orElse ((steady_parenthesized goes h).orElse
            ((steady_token goes lexical_name fun _ => rfl).map _)))))))))

theorem steady_indexed (primary : Steady E (n + 1) 1 (primary inner) (Grammar.primary inner')) :
    Steady E (n + 1) 1 (indexed inner) (indexed inner') :=
  primary.andThen fun _ => (steady_indices goes h runs).repeated.andThen fun _ => steady_pure _

end

section

variable {E : Context} {n : Nat} {inner inner' : Nested} (goes : E.Continues)

include goes

theorem steady_operand (indexed : Steady E n 1 (indexed inner) (indexed inner')) :
    Steady E n 1 (operand inner) (operand inner') := by
  have found := (steady_unaryOperator goes).repeated.after fun ops => indexed.andThen fun e =>
    steady_pure (ops.foldr (fun op e => .unary op.1 e op.2) e)
  exact found

theorem steady_disjunction (operand : Steady E n 1 (operand inner) (operand inner')) :
    Steady E n 1 (disjunction inner) (disjunction inner') := by
  have power : Steady E n 1 (power inner) (power inner') :=
    (steady_chain (steady_binaryOperator goes List.mem_cons_self) operand).andThen
      fun _ => steady_pure _
  have climbs (above : List (Bool × List BinaryOp)) (listed : ∀ level ∈ above, level ∈ levels)
      {item item' : Reader Expr} (steady : Steady E n 1 item item') :
      Steady E n 1 (climb above item) (climb above item') := by
    induction above generalizing item item' with
    | nil => exact steady
    | cons level above ih =>
        rw [List.forall_mem_cons] at listed
        have op := steady_binaryOperator (n := n) goes (List.mem_cons_of_mem _ listed.1)
        exact ih listed.2 ((steady_chain op steady).andThen fun _ => steady_pure _)
  exact climbs levels (fun _ inside => inside) power

theorem steady_expression {P : Prop} (h : inner.Carries P E n inner')
    (operand : Steady E (n + 1) 1 (operand inner) (operand inner')) :
    Steady E (n + 1) 1 (expression inner) (expression inner') := by
  have branches : Steady E (n + 1) 1
      (do sign "?"; let yes ← inner.expr; sign ":"; let no ← inner.expr; return (yes, no))
      (do sign "?"; let yes ← inner'.expr; sign ":"; let no ← inner'.expr; return (yes, no)) :=
    (steady_sign goes "?").opens fun _ => h.expr.andThen fun _ => (steady_sign goes ":").andThen
      fun _ => h.expr.andThen fun _ => steady_pure _
  refine (steady_disjunction goes operand).andThen fun cond =>
    branches.optional.andThen (k := 0) fun found => ?_
  cases found <;> exact steady_pure _

end

/-! ### Assignments -/

/-- Where the targets of an assignment end: nothing is left, or an equals sign comes next and
nothing can go on after the value. -/
def TargetsEnd (P : Prop) (inner : Nested) (c : Cursor) : Prop :=
  skipBlank false c.rest = [] ∨ P ∧ (∃ t, skipBlank false c.rest = '=' :: t) ∧ ∀ value c',
    (do equals; assigned inner : Reader Expr) c = some (value, c') → Dead c'.rest

theorem TargetsEnd.halted {P : Prop} {inner : Nested} {c : Cursor} (h : TargetsEnd P inner c) :
    Halted c.rest :=
  h.imp_right fun h => h.2.1

/-- Where the first target of an assignment ends that has no equals sign after it. -/
def Hung (cs : List Char) : Prop :=
  skipBlank false cs = [] ∨ (∃ t, skipBlank false cs = ',' :: t)
    ∨ ∃ t, skipBlank false cs = '.' :: '.' :: '.' :: t

theorem Hung.dead {cs : List Char} (h : Hung cs) : Dead cs := by
  unfold Dead
  obtain blank | ⟨t, blank⟩ | ⟨t, blank⟩ := h <;> rw [blank]
  · exact .nothing
  · exact .comma t
  · exact .dots t

theorem Hung.equals_refuses {cs : List Char} (h : Hung cs) : equals.Refuses cs := by
  obtain blank | ⟨t, blank⟩ | ⟨t, blank⟩ := h
  · exact (sign_refuses_blank (by decide) blank).bind
  · exact (sign_refuses_of_head blank (by decide) (by decide)).bind
  · exact (sign_refuses_of_head blank (by decide) (by decide)).bind

theorem Hung.before {E : Context} {cs : List Char} (goes : E.Continues) (h : Hung cs) :
    Hung (cs ++ E.more) := by
  obtain blank | ⟨t, blank⟩ | ⟨t, blank⟩ := h
  · obtain nothing | ⟨t, line⟩ := goes
    · exact .inl (by rwa [nothing, List.append_nil])
    · exact .inr (.inl ⟨t, by rw [line, skipBlank_newline blank]; rfl⟩)
  · exact .inr (.inl ⟨t ++ E.more, skipBlank_append blank E.more⟩)
  · exact .inr (.inr ⟨t ++ E.more, skipBlank_append blank E.more⟩)

section

variable {inner : Nested} {c c₁ c₂ : Cursor} {target : Expr} {more : List Expr}

theorem tuple_none (first : tupleItem inner c = none) : tupleAssignment inner c = none :=
  bind_none first

theorem tuple_single (first : tupleItem inner c = some (target, c₁))
    (loop : Loop (afterComma (tupleItem inner)) c₁ [] c₂) : tupleAssignment inner c = none := by
  cases loop with
  | stop no => exact (bind_some first).trans (bind_none (bind_none no))

theorem tuple_several (first : tupleItem inner c = some (target, c₁))
    (loop : Loop (afterComma (tupleItem inner)) c₁ more c₂) (several : more ≠ []) :
    tupleAssignment inner c = (do
      equals
      let value ← assigned inner
      return .assign (.tuple (target :: more)) value : Reader Expr) c₂ := by
  cases loop with
  | stop => exact absurd rfl several
  | next second _ later => exact (bind_some first).trans (bind_some (Loop.many1 second later))

theorem sign_some {word : String} {u : Unit} (read : sign word c = some (u, c₁)) :
    ∃ t, skipBlank false c.rest = word.toList ++ t := by
  obtain ⟨⟨_, rest⟩, found, -⟩ := Option.map_eq_some_iff.mp read
  unfold expect? at found
  split at found
  · rename_i begins
    obtain ⟨t, is⟩ := List.isPrefixOf_iff_prefix.mp begins
    exact ⟨t, is.symm⟩
  · cases found

theorem comma_of_next {α : Type} {x : Reader α} {a : α} (read : afterComma x c = some (a, c₁)) :
    ∃ t, skipBlank false c.rest = ',' :: t := by
  obtain ⟨⟨_, c'⟩, comma, -⟩ := Option.bind_eq_some_iff.mp read
  exact sign_some comma

theorem equals_some {u : Unit} (read : equals c = some (u, c₁)) :
    ∃ t, skipBlank false c.rest = '=' :: t := by
  obtain ⟨⟨_, c'⟩, mark, -⟩ := Option.bind_eq_some_iff.mp read
  exact sign_some mark

theorem takes_tuple (item : (tupleItem inner).Takes 1) (value : (assigned inner).Takes 1) :
    (tupleAssignment inner).Takes 1 := by
  have sign : equals.Takes 0 :=
    (((takes_token (lexical_expect (by decide) (by decide))).bind fun _ => takes_notAhead _).weaken
      (Nat.zero_le _))
  exact (item.bind fun _ => (takes_afterComma item).many1.bind fun _ => sign.bind fun _ =>
    value.bind fun _ => takes_pure _).weaken (Nat.le_add_right 1 _)

end

section

variable {P : Prop} {E : Context} {n : Nat} {inner inner' : Nested} {c : Cursor}
  (goes : E.Continues) (item : Steady E n 1 (tupleItem inner) (tupleItem inner'))
  (value : Carries (fun cs => P ∧ Dead cs) E n 1 (assigned inner) (assigned inner'))

include goes item value

omit item in
theorem carries_assigned (f : Expr → Expr) : Carries (fun cs => P ∧ Dead cs) E n 1
    (do equals; let value ← assigned inner; return f value)
    (do equals; let value ← assigned inner'; return f value) :=
  (steady_equals goes).andThen fun _ => value.passing (fun e => (steady_pure (f e)).carries)
    fun e cs _ => ⟨⟨f e, reads_pure _ cs⟩, f e, reads_pure _ cs⟩

omit goes item value

/-- An assignment to several targets stops where nothing can go on, in both texts, and there is none
to its first target alone. -/
structure Astray (P : Prop) (E : Context) (inner inner' : Nested) (c : Cursor) : Prop where
  holds : P
  first : ∃ target c₁, tupleItem inner c = some (target, c₁)
    ∧ (skipBlank false c₁.rest = [] ∨ ∃ t, skipBlank false c₁.rest = ',' :: t)
  alone : ∀ e c', tupleAssignment inner c = some (e, c') → Dead c'.rest
  among : ∀ e c', tupleAssignment inner' (c.before E) = some (e, c') → Dead c'.rest

theorem comma_of_loop {c₁ c₂ : Cursor} {more : List Expr} {x : Reader Expr}
    (loop : Loop (afterComma x) c₁ more c₂) (several : more ≠ []) :
    ∃ t, skipBlank false c₁.rest = ',' :: t := by
  cases loop with
  | stop => exact absurd rfl several
  | next second _ _ => exact comma_of_next second

include goes value in
/-- The same targets are read before `E`. -/
theorem tuple_same_targets {c₁ c₂ : Cursor} {target : Expr} {more : List Expr}
    (first : tupleItem inner c = some (target, c₁))
    (first' : tupleItem inner' (c.before E) = some (target, c₁.before E))
    (loop : Loop (afterComma (tupleItem inner)) c₁ more c₂)
    (same : Loop (afterComma (tupleItem inner')) (c₁.before E) more (c₂.before E))
    (clear : Clear c₂.rest) (short : c₂.rest.length < n) :
    Agree E (tupleAssignment inner) (tupleAssignment inner') c ∨ Astray P E inner inner' c := by
  by_cases several : more = []
  · subst several
    exact .inl (agree_none (tuple_single first loop) (tuple_single first' same))
  · have left := tuple_several first loop several
    have right := tuple_several first' same several
    obtain agree | ⟨e, c₃, e', c₄, ends, dead, ends', dead'⟩ :=
      (carries_assigned goes value _).same c₂ clear short
    · rw [Agree, left, right]
      exact .inl agree
    · refine .inr ⟨dead.1, ⟨target, c₁, first, .inr (comma_of_loop loop several)⟩, ?_, ?_⟩
      · intro u c' read
        cases (left.trans ends).symm.trans read
        exact dead.2
      · intro u c' read
        cases (right.trans ends').symm.trans read
        exact dead'.2

/-- The targets come to an end alone and run on before `E`. -/
theorem tuple_runs_on {c₁ c₂ c₃ : Cursor} {target : Expr} {more more' : List Expr}
    (first : tupleItem inner c = some (target, c₁))
    (first' : tupleItem inner' (c.before E) = some (target, c₁.before E))
    (loop : Loop (afterComma (tupleItem inner)) c₁ more c₂) (blank : skipBlank false c₂.rest = [])
    (run : Loop (afterComma (tupleItem inner')) (c₁.before E) more' c₃)
    (ends : TargetsEnd P inner' c₃) :
    Agree E (tupleAssignment inner) (tupleAssignment inner') c ∨ Astray P E inner inner' c := by
  have none : tupleAssignment inner c = none := by
    by_cases several : more = []
    · subst several
      exact tuple_single first loop
    · rw [tuple_several first loop several]
      exact (sign_refuses_blank (by decide) blank).bind.bind c₂.fault
  have hung : skipBlank false c₁.rest = [] ∨ ∃ t, skipBlank false c₁.rest = ',' :: t := by
    by_cases several : more = []
    · subst several
      cases loop with
      | stop => exact .inl blank
    · exact .inr (comma_of_loop loop several)
  cases outcome : tupleAssignment inner' (c.before E) with
  | none => exact .inl (agree_none none outcome)
  | some found =>
      have several : more' ≠ [] := by
        rintro rfl
        rw [tuple_single first' run] at outcome
        cases outcome
      have whole := outcome
      rw [tuple_several first' run several] at whole
      obtain ⟨⟨_, c₄⟩, mark, later⟩ := Option.bind_eq_some_iff.mp whole
      obtain ⟨⟨v, c₅⟩, read, same⟩ := Option.bind_eq_some_iff.mp later
      cases same
      obtain nothing | ⟨holds, -, dead⟩ := ends
      · obtain ⟨t, sign⟩ := equals_some mark
        rw [nothing] at sign
        cases sign
      · refine .inr ⟨holds, ⟨target, c₁, first, hung⟩, fun e c' is => ?_, fun e c' is => ?_⟩
        · rw [none] at is
          cases is
        · cases outcome.symm.trans is
          exact dead v _ ((bind_some mark).trans read)

include goes item value in
/-- An assignment to several targets is the same before `E`, or it goes astray. -/
theorem tuple_same (runs : RunsOn (TargetsEnd P inner') E.more (tupleItem inner'))
    (clear : Clear c.rest) (short : c.rest.length < n) :
    Agree E (tupleAssignment inner) (tupleAssignment inner') c ∨ Astray P E inner inner' c := by
  cases first : tupleItem inner c with
  | none =>
      exact .inl (agree_none (tuple_none first)
        (tuple_none ((item.agree clear short).refuses first)))
  | some found =>
      obtain ⟨target, c₁⟩ := found
      have first' := (item.agree clear short).reads first
      obtain ⟨clear₁, shorter₁⟩ := item.takes.left first clear
      obtain ⟨more, c₂, loop⟩ := (takes_afterComma item.takes).loop c₁
      obtain ⟨same, -⟩ | ⟨blank, more', c₃, run, ends⟩ :=
        commas_loop goes item runs loop clear₁ (by omega)
      · obtain ⟨p, is, whole⟩ := (takes_afterComma item.takes).of_loop loop
        have shorter₂ : c₂.rest.length ≤ c₁.rest.length := by
          rw [is, List.length_append]
          omega
        exact tuple_same_targets goes value first first' loop same
          ((is ▸ clear₁).after whole) (by omega)
      · exact tuple_runs_on first first' loop blank run ends

end

/-! ### A name before three dots -/

section

variable {t : List Char} {c c₁ : Cursor} {target : Expr}

theorem detached_dots : Detached ('.' :: '.' :: '.' :: t) :=
  ⟨by simp [isNameChar], some (), _, (sign_reads rfl).optional, token_refuses rfl rfl⟩

theorem closed_dots : Closed ('.' :: '.' :: '.' :: t) := by
  have none {dots : Bool} {ops : List BinaryOp} (level : (dots, ops) ∈ (true, [.pow]) :: levels) :
      (binaryOperator dots ops).Refuses ('.' :: '.' :: '.' :: t) := by
    simp only [levels, List.mem_cons, List.not_mem_nil, or_false, Prod.mk.injEq] at level
    rcases level with ⟨rfl, rfl⟩ | ⟨rfl, rfl⟩ | ⟨rfl, rfl⟩ | ⟨rfl, rfl⟩ | ⟨rfl, rfl⟩ | ⟨rfl, rfl⟩ <;>
      exact token_refuses rfl rfl
  exact ⟨none List.mem_cons_self, fun level inside => none (List.mem_cons_of_mem _ inside),
    token_refuses rfl rfl⟩

theorem expr_name_dots {cs : List Char} {name : String} (depth : Nat)
    (blank : skipBlank false cs = name.toList ++ '.' :: '.' :: '.' :: t) (free : FreeName name) :
    (nested (depth + 1)).expr.Reads cs (.ident name) ('.' :: '.' :: '.' :: t) := by
  have plain : unaryOperator.Refuses cs := by
    obtain ⟨c, cs', whole, start, -⟩ := toList_of_plain free.plain
    rw [whole, List.cons_append] at blank
    exact token_refuses blank (operator?_of_head (not_mem_of_all (by decide) start) _)
  have read : ReadsApplied (nested depth) cs (.ident name) ('.' :: '.' :: '.' :: t) :=
    .primary (primary_name blank free detached_dots)
  have operand := ReadsOperand.indexed (read.indexed (token_refuses rfl rfl)) plain
  exact expression_of_operand operand.reads closed_dots

end
/-- Where the items of an assignment do not go on after the first, neither does an expression. -/
theorem expr_hung {depth : Nat} {c c₁ : Cursor} {target : Expr} (clear : Clear c.rest)
    (first : tupleItem (nested (depth + 1)) c = some (target, c₁))
    (next : skipBlank false c₁.rest = [] ∨ ∃ t, skipBlank false c₁.rest = ',' :: t) :
    ∃ e c₂, (nested (depth + 1)).expr c = some (e, c₂) ∧ Hung c₂.rest := by
  cases splat : token splat? c with
  | none =>
      have read : tupleItem (nested (depth + 1)) c = (nested (depth + 1)).expr c :=
        orElse_none ((congrFun (map_eq_pure_bind _ _) c).trans (bind_none splat))
      exact ⟨target, c₁, read ▸ first, next.imp_right .inl⟩
  | some found =>
      obtain ⟨⟨name, rest⟩, found, -⟩ := Option.map_eq_some_iff.mp splat
      cases blank : skipBlank false c.rest with
      | nil =>
          rw [blank] at found
          cases found
      | cons d t =>
          obtain ⟨p, is, -⟩ := exists_blank blank
          rw [blank] at found
          have apart := clear.splat ⟨p, is.symm⟩ found
          obtain ⟨whole, plain, free⟩ := splat?_some found
          rw [whole] at blank
          exact ⟨.ident name, _, expr_name_dots depth blank ⟨plain, free, apart⟩ c.fault,
            .inr (.inr ⟨rest, rfl⟩)⟩

/-! ### Statements -/

theorem assignments_dead {inner : Nested} {c c₁ : Cursor} {e : Expr}
    (read : inner.expr c = some (e, c₁)) (hung : Hung c₁.rest)
    (tuple : ∀ e c', tupleAssignment inner c = some (e, c') → Dead c'.rest) :
    ∃ a c', (tupleAssignment inner <|> assignment inner <|> inner.expr) c = some (a, c')
      ∧ Dead c'.rest := by
  cases several : tupleAssignment inner c with
  | some found => exact ⟨found.1, found.2, orElse_some several, tuple _ _ several⟩
  | none =>
      have single : assignment inner c = none :=
        (bind_some read).trans (bind_none (hung.equals_refuses c₁.fault))
      exact ⟨e, c₁, (orElse_none several).trans ((orElse_none single).trans read), hung.dead⟩

/-- How expressions and targets go on through the text `more`. -/
structure Tail (P : Prop) (more : List Char) (inner : Nested) : Prop where
  exprs : RunsOn (TargetsEnd P inner) more inner.expr
  items : RunsOn (TargetsEnd P inner) more (tupleItem inner)

theorem RunsOn.weaken {α : Type} {D D' : Cursor → Prop} {more : List Char} {x : Reader α}
    (h : RunsOn D more x) (weaker : ∀ c, D c → D' c) : RunsOn D' more x := by
  intro cs fault blank
  obtain ⟨as, c', loop, ends⟩ := h cs fault blank
  exact ⟨as, c', loop, weaker _ ends⟩

section

variable {P : Prop} {E : Context} {d d' : Nat} (goes : E.Continues)
  (h : (nested d).Carries P E d (nested d')) (tail : Tail P E.more (nested d'))

include goes h

theorem steady_tupleItem : Steady E d 1 (tupleItem (nested d)) (tupleItem (nested d')) :=
  ((steady_token goes lexical_splat fun _ => rfl).map _).orElse h.expr

omit goes in
theorem carries_value :
    Carries (fun cs => P ∧ Dead cs) E d 1 (assigned (nested d)) (assigned (nested d')) :=
  h.directed.orElse h.expr.carries

theorem carries_assignment :
    Carries (fun cs => P ∧ Dead cs) E d 1 (assignment (nested d)) (assignment (nested d')) :=
  h.expr.andThen fun target => carries_assigned goes (carries_value h) (.assign target)

include tail

theorem carries_statement :
    Carries (fun cs => P ∧ Dead cs) E d 1 (statement (nested d)) (statement (nested d')) := by
  have item := steady_tupleItem goes h
  have value := carries_value h
  have assignment := carries_assignment goes h
  have later := assignment.orElse (h.expr.carries (D := fun cs => P ∧ Dead cs))
  refine h.directed.orElse ⟨(takes_tuple item.takes value.takes).orElse later.takes,
    (takes_tuple item.takes' value.takes').orElse later.takes', fun c clear short => ?_⟩
  obtain agree | ⟨holds, ⟨target, c₁, first, next⟩, dead, dead'⟩ :=
    tuple_same goes item value tail.items clear short
  · exact agree.orElse (later.same c clear short)
  · obtain ⟨depth, rfl⟩ : ∃ n, d = n + 1 := ⟨d - 1, by omega⟩
    obtain ⟨e, c₂, read, hung⟩ := expr_hung clear first next
    obtain ⟨a, c₃, left, stops⟩ := assignments_dead read hung dead
    obtain ⟨b, c₄, right, stops'⟩ :=
      assignments_dead ((h.expr.agree clear short).reads read) (hung.before goes) dead'
    exact .inr ⟨a, c₃, b, c₄, left, ⟨holds, stops⟩, right, holds, stops'⟩

theorem steady_block : Steady E (d + 1) 1 (block (nested d)) (block (nested d')) := by
  have separated : Carries (fun cs => P ∧ Dead cs) E d 1
      (do let e ← statement (nested d); let _ ← optional (sign ";"); return e)
      (do let e ← statement (nested d'); let _ ← optional (sign ";"); return e) := by
    refine (carries_statement goes h tail).passing (fun e =>
      (steady_sign goes ";").optional.andThen fun _ => (steady_pure e).carries) fun e cs dead => ?_
    have passed : (do let _ ← optional (sign ";"); return e : Reader Expr).Reads cs e cs :=
      dead.2.sign_refuses.optional.to rfl
    exact ⟨⟨e, passed⟩, e, passed⟩
  refine (steady_sign goes "begin").opens fun _ => (separated.many fun cs dead => ?_).closing
    (fun _ => (steady_sign goes "end").andThen fun _ => steady_pure _)
    fun _ _ dead => ⟨dead.2.sign_refuses.bind, dead.2.sign_refuses.bind⟩
  exact ⟨(dead.2.statement_refuses d).bind, (dead.2.statement_refuses d').bind⟩

theorem carries_directed :
    Carries (fun cs => P ∧ Dead cs) E (d + 1) 1 (directed (nested d)) (directed (nested d')) :=
  (steady_token goes lexical_directive fun _ => rfl).opens fun _ =>
    (carries_statement goes h tail).passing (fun _ => (steady_pure _).carries)
      fun _ cs _ => ⟨⟨_, reads_pure _ cs⟩, _, reads_pure _ cs⟩

/-- One level of nesting more. -/
theorem Nested.Carries.succ : (nested (d + 1)).Carries P E (d + 1) (nested (d' + 1)) := by
  have runs : RunsOn (fun c => Halted c.rest) E.more (nested d').expr :=
    tail.exprs.weaken fun _ => TargetsEnd.halted
  have primary := steady_primary goes h runs (steady_block goes h tail)
  have indexed := steady_indexed goes h runs primary
  have operand := steady_operand goes indexed
  exact ⟨steady_expression goes h operand, operand, indexed, carries_directed goes h tail⟩

end

theorem tail_nil (P : Prop) (inner : Nested) : Tail P [] inner := by
  have stops {x : Reader Expr} : RunsOn (TargetsEnd P inner) [] x := by
    intro cs fault blank
    rw [List.append_nil]
    exact ⟨[], _, .stop ((sign_refuses_blank (by decide) blank).bind _), .inl blank⟩
  exact ⟨stops, stops⟩

/-- Nothing comes after the text. -/
def Context.nothing : Context := ⟨[], none⟩

theorem nested_takes (depth : Nat) :
    (nested depth).Carries False .nothing depth (nested depth) := by
  induction depth with
  | zero =>
      exact ⟨steady_failure, steady_failure, steady_failure, steady_failure.carries⟩
  | succ depth ih => exact ih.succ (.inl rfl) (tail_nil _ _)

/-- Every depth that is enough for a text is enough for it before more text. -/
theorem nested_carries {P : Prop} {E : Context} (goes : E.Continues)
    (tail : ∀ depth, E.more.length ≤ depth → Tail P E.more (nested depth)) (d d' : Nat)
    (deep : d + E.more.length ≤ d') : (nested d).Carries P E d (nested d') := by
  induction d generalizing d' with
  | zero =>
      have h := nested_takes d'
      have never {D : List Char → Prop} {x : Reader Expr} (takes : x.Takes 1) :
          Carries D E 0 1 failure x :=
        ⟨takes_failure, takes, fun _ _ short => absurd short (Nat.not_lt_zero _)⟩
      exact ⟨never h.expr.takes, never h.operand.takes, never h.element.takes,
        never h.directed.takes⟩
  | succ d ih =>
      obtain ⟨d', rfl⟩ : ∃ n, d' = n + 1 := ⟨d' - 1, by omega⟩
      exact (ih d' (by omega)).succ goes (tail d' (by omega))

end TablePlan.Grammar
