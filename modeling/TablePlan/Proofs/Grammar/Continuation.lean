import Mathlib.Data.List.Infix
import TablePlan.Proofs.Grammar.Lexical

/-!
# Reading a text that goes on

`Carries D E n m x y` compares a reader `x` at a text of fewer than `n` characters with a reader
`y` at the same text before the characters `E`, which begin on a new line with a comma: `y` reads
what `x` reads and leaves `E`, or else both of them strand, which is to say that they stop where `D`
holds. Both take at least `m` characters.
-/

namespace TablePlan.Grammar

/-- No name before three dots begins like a block, wherever it is taken to begin. -/
def SplatsApart (cs : List Char) : Prop :=
  ∀ s ∈ cs.tails, ∀ found ∈ splat? s, ¬ "begin".toList <+: found.1.toList

instance : DecidablePred SplatsApart :=
  fun _ => inferInstanceAs (Decidable (∀ s ∈ List.tails _, ∀ found ∈ splat? s, _))

/-- Characters that lexemes are told apart in: all quotes are closed, and no name before three dots
begins like a block. -/
structure Clear (cs : List Char) : Prop where
  settled : Settled cs
  splats : SplatsApart cs

theorem Clear.after {p cs : List Char} (h : Clear (p ++ cs)) (whole : Whole p) : Clear cs := by
  refine ⟨whole.settled_append.mp h.settled, fun s inside => h.splats s ?_⟩
  rw [List.mem_tails] at inside ⊢
  exact inside.trans (List.suffix_append p cs)

theorem Clear.splat {cs s rest : List Char} {name : String} (h : Clear cs) (inside : s <:+ cs)
    (found : splat? s = some (name, rest)) : ¬ "begin".toList <+: name.toList :=
  h.splats s ((List.mem_tails s cs).mpr inside) (name, rest) found

/-- Text after a text, and the first fault before it. -/
structure Context where
  more : List Char
  earlier : Option Fault

/-- The cursor in a longer text. -/
def Cursor.before (c : Cursor) (E : Context) : Cursor :=
  ⟨c.rest ++ E.more, E.earlier.or c.fault⟩

/-- Nothing comes after the text, or a new line that begins with a comma. -/
def Context.Continues (E : Context) : Prop :=
  E.more = [] ∨ ∃ t, E.more = '\n' :: ',' :: t

namespace Reader

variable {α β : Type} {D : List Char → Prop} {E : Context} {n m k : Nat} {x y : Reader α}
  {c c' : Cursor} {a : α}

/-! ### What a reader takes -/

/-- The reader takes at least `m` characters, with the quotes among them closed. -/
def Takes (m : Nat) (x : Reader α) : Prop :=
  ∀ c a c', x c = some (a, c') → ∃ p, c.rest = p ++ c'.rest ∧ Whole p ∧ m ≤ p.length

theorem Takes.weaken (h : x.Takes m) (less : k ≤ m) : x.Takes k := by
  intro c a c' read
  obtain ⟨p, is, whole, takes⟩ := h c a c' read
  exact ⟨p, is, whole, less.trans takes⟩

theorem takes_pure (a : α) : (pure a : Reader α).Takes 0 := by
  rintro c _ _ ⟨⟩
  exact ⟨[], rfl, whole_nil, Nat.le_refl 0⟩

theorem Takes.bind {f : α → Reader β} (first : x.Takes m) (second : ∀ a, (f a).Takes k) :
    (x >>= f).Takes (m + k) := by
  intro c b c' read
  obtain ⟨⟨a, c₁⟩, start, rest⟩ := Option.bind_eq_some_iff.mp read
  obtain ⟨p, is, whole, takes⟩ := first c a c₁ start
  obtain ⟨q, is', whole', takes'⟩ := second a c₁ b c' rest
  exact ⟨p ++ q, by rw [is, is', List.append_assoc], whole.append whole', by
    rw [List.length_append]; omega⟩

theorem Takes.map {f : α → β} (h : x.Takes m) : (f <$> x).Takes m := by
  rw [map_eq_pure_bind]
  exact h.bind fun a => takes_pure _

theorem Takes.orElse (first : x.Takes m) (second : y.Takes m) : (x <|> y).Takes m := by
  intro c a c' read
  change (x c).orElse (fun _ => y c) = some (a, c') at read
  cases attempt : x c with
  | none =>
      rw [attempt] at read
      exact second c a c' read
  | some found =>
      rw [attempt] at read
      cases read
      exact first c _ _ attempt

theorem Takes.optional (h : x.Takes m) : (optional x).Takes 0 :=
  (h.map.weaken (Nat.zero_le m)).orElse (takes_pure none)

theorem Takes.loop (h : x.Takes 1) (c : Cursor) : ∃ as c', Loop x c as c' := by
  generalize size : c.rest.length = n
  induction n using Nat.strongRecOn generalizing c with
  | ind n ih =>
      cases read : x c with
      | none => exact ⟨[], c, .stop read⟩
      | some found =>
          obtain ⟨a, c₁⟩ := found
          obtain ⟨p, is, -, takes⟩ := h c a c₁ read
          have shorter : c₁.rest.length < c.rest.length := by
            rw [is, List.length_append]
            omega
          obtain ⟨as, c', later⟩ := ih _ (size ▸ shorter) c₁ rfl
          exact ⟨a :: as, c', .next read shorter later⟩

theorem Takes.of_loop (h : x.Takes m) {c c' : Cursor} {as : List α} (loop : Loop x c as c') :
    ∃ p, c.rest = p ++ c'.rest ∧ Whole p := by
  induction loop with
  | stop => exact ⟨[], rfl, whole_nil⟩
  | next first _ _ ih =>
      obtain ⟨p, is, whole, -⟩ := h _ _ _ first
      obtain ⟨q, is', whole'⟩ := ih
      exact ⟨p ++ q, by rw [is, is', List.append_assoc], whole.append whole'⟩

theorem Takes.many (h : x.Takes 1) : (many x).Takes 0 := by
  intro c as c' read
  obtain ⟨as', c₁, loop⟩ := h.loop c
  cases loop.many.symm.trans read
  obtain ⟨p, is, whole⟩ := h.of_loop loop
  exact ⟨p, is, whole, Nat.zero_le _⟩

theorem Takes.many1 (h : x.Takes 1) : (many1 x).Takes 1 :=
  h.bind fun _ => h.many.bind fun _ => takes_pure _

theorem takes_token {lexeme : List Char → Option (α × List Char)} (h : Lexical lexeme) :
    (token lexeme).Takes 1 := by
  intro c a c' read
  obtain ⟨⟨a', rest⟩, found, same⟩ := Option.map_eq_some_iff.mp read
  cases same
  cases blank : skipBlank false c.rest with
  | nil =>
      rw [blank, h.nothing] at found
      cases found
  | cons d t =>
      obtain ⟨p, is, ends⟩ := exists_blank blank
      rw [blank] at found
      obtain ⟨q, is', whole, some⟩ := h.takes _ _ _ found
      refine ⟨p ++ q, by rw [is, is', List.append_assoc], Whole.append ends whole, ?_⟩
      have := List.length_pos_iff.mpr some
      rw [List.length_append]
      omega

/-! ### What a reader reads before more text -/

/-- Both readers stop where `D` holds. -/
def Strand (D : List Char → Prop) (E : Context) (x y : Reader α) (c : Cursor) : Prop :=
  ∃ a c₁ b c₂, x c = some (a, c₁) ∧ D c₁.rest ∧ y (c.before E) = some (b, c₂) ∧ D c₂.rest

/-- The reader `y` reads before `E` what `x` reads. -/
def Agree (E : Context) (x y : Reader α) (c : Cursor) : Prop :=
  y (c.before E) = (x c).map fun found => (found.1, found.2.before E)

/-- At fewer than `n` characters `y` reads before `E` what `x` reads, or both strand. -/
structure Carries (D : List Char → Prop) (E : Context) (n m : Nat) (x y : Reader α) : Prop where
  takes : x.Takes m
  takes' : y.Takes m
  same : ∀ c, Clear c.rest → c.rest.length < n → Agree E x y c ∨ Strand D E x y c

/-- Without a way to strand. -/
abbrev Steady (E : Context) (n m : Nat) (x y : Reader α) : Prop :=
  Carries (fun _ => False) E n m x y

theorem Carries.weaken {D' : List Char → Prop} {l : Nat} (h : Carries D E n m x y)
    (more : ∀ cs, D cs → D' cs) (fewer : l ≤ n) (less : k ≤ m) : Carries D' E l k x y := by
  refine ⟨h.takes.weaken less, h.takes'.weaken less, fun c clear short => ?_⟩
  obtain agree | ⟨a, c₁, b, c₂, left, dead, right, dead'⟩ := h.same c clear (short.trans_le fewer)
  · exact .inl agree
  · exact .inr ⟨a, c₁, b, c₂, left, more _ dead, right, more _ dead'⟩

theorem not_strand : ¬ Strand (fun _ => False) E x y c :=
  fun ⟨_, _, _, _, _, never, _⟩ => never

theorem Steady.carries (h : Steady E n m x y) : Carries D E n m x y :=
  h.weaken (fun _ => False.elim) (Nat.le_refl n) (Nat.le_refl m)

theorem Carries.agree (h : Steady E n m x y) (clear : Clear c.rest) (short : c.rest.length < n) :
    Agree E x y c :=
  (h.same c clear short).resolve_right not_strand

theorem steady (takes : x.Takes m) (takes' : y.Takes m)
    (same : ∀ c, Clear c.rest → c.rest.length < n → Agree E x y c) : Steady E n m x y :=
  ⟨takes, takes', fun c clear short => .inl (same c clear short)⟩

theorem steady_pure (a : α) : Steady E n 0 (pure a : Reader α) (pure a) :=
  steady (takes_pure a) (takes_pure a) fun _ _ _ => rfl

/-- What is left after a reader has read is clear and no longer. -/
theorem Takes.left (h : x.Takes m) (read : x c = some (a, c')) (clear : Clear c.rest) :
    Clear c'.rest ∧ c'.rest.length + m ≤ c.rest.length := by
  obtain ⟨p, is, whole, takes⟩ := h c a c' read
  rw [is] at clear ⊢
  exact ⟨clear.after whole, by rw [List.length_append]; omega⟩

theorem bind_some {f : α → Reader β} (read : x c = some (a, c')) : (x >>= f) c = f a c' := by
  change (x c).bind _ = _
  rw [read]
  rfl

theorem bind_none {f : α → Reader β} (read : x c = none) : (x >>= f) c = none := by
  change (x c).bind _ = _
  rw [read]
  rfl

theorem Loop.many1 {c₁ c₂ : Cursor} {as : List α} (first : x c = some (a, c₁))
    (later : Loop x c₁ as c₂) : Reader.many1 x c = some (a :: as, c₂) :=
  (bind_some first).trans (bind_some (f := fun rest => pure (a :: rest)) later.many)

theorem orElse_some {found : α × Cursor} (read : x c = some found) : (x <|> y) c = some found := by
  change (x c).orElse _ = _
  rw [read]
  rfl

theorem orElse_none (read : x c = none) : (x <|> y) c = y c := by
  change (x c).orElse _ = _
  rw [read]
  rfl

theorem Agree.refuses (h : Agree E x y c) (read : x c = none) : y (c.before E) = none := by
  rw [h, read]
  rfl

theorem Agree.reads (h : Agree E x y c) (read : x c = some (a, c')) :
    y (c.before E) = some (a, c'.before E) := by
  rw [h, read]
  rfl

theorem agree_none (left : x c = none) (right : y (c.before E) = none) : Agree E x y c := by
  rw [Agree, left, right]
  rfl

theorem agree_some (left : x c = some (a, c')) (right : y (c.before E) = some (a, c'.before E)) :
    Agree E x y c := by
  rw [Agree, left, right]
  rfl

section

variable {f g : α → Reader β}

/-- Where the first readers agree the second ones decide. -/
theorem Agree.bind (first : Agree E x y c)
    (second : ∀ a c', x c = some (a, c') → Agree E (f a) (g a) c' ∨ Strand D E (f a) (g a) c') :
    Agree E (x >>= f) (y >>= g) c ∨ Strand D E (x >>= f) (y >>= g) c := by
  cases read : x c with
  | none => exact .inl (agree_none (bind_none read) (bind_none (first.refuses read)))
  | some found =>
      have later := second found.1 found.2 read
      unfold Agree Strand at later ⊢
      rw [bind_some read, bind_some (first.reads read)]
      exact later

theorem Agree.then (first : Agree E x y c)
    (second : ∀ a c', x c = some (a, c') → Agree E (f a) (g a) c') :
    Agree E (x >>= f) (y >>= g) c :=
  (first.bind fun a c' read => .inl (second a c' read)).resolve_right not_strand

/-- After a steady reader the next one decides. -/
theorem Carries.after (first : Steady E n m x y)
    (second : ∀ a, Carries D E (n - m) k (f a) (g a)) :
    Carries D E n (m + k) (x >>= f) (y >>= g) where
  takes := first.takes.bind fun a => (second a).takes
  takes' := first.takes'.bind fun a => (second a).takes'
  same c clear short := (first.agree clear short).bind fun a c' read => by
    obtain ⟨clear', shorter⟩ := first.takes.left read clear
    exact (second a).same c' clear' (by omega)

/-- After a first character has been taken there are fewer than before. -/
theorem Carries.opens (first : Steady E (n + 1) 1 x y) (second : ∀ a, Carries D E n k (f a) (g a)) :
    Carries D E (n + 1) 1 (x >>= f) (y >>= g) :=
  (first.after second).weaken (fun _ => id) (Nat.le_refl _) (Nat.le_add_right 1 k)

theorem Carries.andThen (first : Steady E n m x y) (second : ∀ a, Carries D E n k (f a) (g a)) :
    Carries D E n m (x >>= f) (y >>= g) :=
  (first.after fun a => (second a).weaken (fun _ => id) (Nat.sub_le n m) (Nat.le_refl k)).weaken
    (fun _ => id) (Nat.le_refl n) (Nat.le_add_right m k)

/-- A reader that refuses where the one before it strands. -/
theorem Carries.closing (first : Carries D E n m x y) (second : ∀ a, Steady E n k (f a) (g a))
    (refuses : ∀ a cs, D cs → (f a).Refuses cs ∧ (g a).Refuses cs) :
    Steady E n m (x >>= f) (y >>= g) := by
  refine steady ((first.takes.bind fun a => (second a).takes).weaken (Nat.le_add_right m k))
    ((first.takes'.bind fun a => (second a).takes').weaken (Nat.le_add_right m k))
    fun c clear short => ?_
  obtain agree | ⟨a, c₁, b, c₂, left, dead, right, dead'⟩ := first.same c clear short
  · refine agree.then fun a c' read => ?_
    obtain ⟨clear', shorter⟩ := first.takes.left read clear
    exact (second a).agree clear' (by omega)
  · exact agree_none ((bind_some left).trans ((refuses a _ dead).1 _))
      ((bind_some right).trans ((refuses b _ dead').2 _))

/-- A reader that passes where the one before it strands. -/
theorem Carries.passing (first : Carries D E n m x y) (second : ∀ a, Carries D E n k (f a) (g a))
    (passes : ∀ a cs, D cs → (∃ b, (f a).Reads cs b cs) ∧ ∃ b, (g a).Reads cs b cs) :
    Carries D E n m (x >>= f) (y >>= g) where
  takes := (first.takes.bind fun a => (second a).takes).weaken (Nat.le_add_right m k)
  takes' := (first.takes'.bind fun a => (second a).takes').weaken (Nat.le_add_right m k)
  same c clear short := by
    obtain agree | ⟨a, c₁, b, c₂, left, dead, right, dead'⟩ := first.same c clear short
    · refine agree.bind fun a c' read => ?_
      obtain ⟨clear', shorter⟩ := first.takes.left read clear
      exact (second a).same c' clear' (by omega)
    · obtain ⟨⟨u, reads⟩, -⟩ := passes a _ dead
      obtain ⟨-, v, reads'⟩ := passes b _ dead'
      exact .inr ⟨u, _, v, _, (bind_some left).trans (reads _), dead,
        (bind_some right).trans (reads' _), dead'⟩

theorem Carries.map (h : Carries D E n m x y) (f : α → β) :
    Carries D E n m (f <$> x) (f <$> y) := by
  rw [map_eq_pure_bind, map_eq_pure_bind]
  exact h.passing (fun a => (steady_pure (f a)).carries)
    fun a cs _ => ⟨⟨f a, reads_pure _ _⟩, f a, reads_pure _ _⟩

end

/-- Where the first readers agree the second ones decide if those refuse. -/
theorem Agree.orElse {x' y' : Reader α} (first : Agree E x y c)
    (second : Agree E x' y' c ∨ Strand D E x' y' c) :
    Agree E (x <|> x') (y <|> y') c ∨ Strand D E (x <|> x') (y <|> y') c := by
  cases read : x c with
  | none =>
      unfold Agree Strand at second ⊢
      rw [orElse_none read, orElse_none (first.refuses read)]
      exact second
  | some found => exact .inl (agree_some (orElse_some read) (orElse_some (first.reads read)))

theorem Agree.or {x' y' : Reader α} (first : Agree E x y c) (second : Agree E x' y' c) :
    Agree E (x <|> x') (y <|> y') c :=
  (first.orElse (.inl second)).resolve_right not_strand

theorem Carries.orElse {x' y' : Reader α} (first : Carries D E n m x y)
    (second : Carries D E n m x' y') : Carries D E n m (x <|> x') (y <|> y') where
  takes := first.takes.orElse second.takes
  takes' := first.takes'.orElse second.takes'
  same c clear short := by
    obtain agree | ⟨a, c₁, b, c₂, left, dead, right, dead'⟩ := first.same c clear short
    · exact agree.orElse (second.same c clear short)
    · exact .inr ⟨a, c₁, b, c₂, orElse_some left, dead, orElse_some right, dead'⟩

theorem Carries.optional (h : Carries D E n m x y) : Carries D E n 0 (optional x) (optional y) :=
  ((h.map some).weaken (fun _ => id) (Nat.le_refl n) (Nat.zero_le m)).orElse
    (steady_pure none).carries

theorem optional_some (read : x c = some (a, c')) : optional x c = some (some a, c') :=
  orElse_some ((congrFun (map_eq_pure_bind some x) c).trans (bind_some read))

theorem optional_none (read : x c = none) : optional x c = some (none, c) :=
  orElse_none ((congrFun (map_eq_pure_bind some x) c).trans (bind_none read))

theorem Agree.optional (h : Agree E x y c) : Agree E (optional x) (optional y) c := by
  cases read : x c with
  | none => exact agree_some (optional_none read) (optional_none (h.refuses read))
  | some found => exact agree_some (optional_some read) (optional_some (h.reads read))

theorem takes_failure : (failure : Reader α).Takes m :=
  fun _ _ _ read => nomatch read

theorem steady_failure : Steady E n m (failure : Reader α) failure :=
  steady takes_failure takes_failure fun _ _ _ => rfl

theorem notAhead_some {u : Unit} (read : notAhead x c = some (u, c')) : c' = c := by
  unfold Reader.notAhead at read
  split at read <;> cases read
  rfl

theorem takes_notAhead (x : Reader α) : (notAhead x).Takes 0 := by
  intro c a c' read
  rw [notAhead_some read]
  exact ⟨[], rfl, whole_nil, Nat.le_refl 0⟩

theorem Agree.notAhead (h : Agree E x y c) : Agree E (notAhead x) (notAhead y) c := by
  unfold Agree Reader.notAhead
  rw [h]
  cases x c <;> rfl

theorem Carries.notAhead (h : Steady E n m x y) : Steady E n 0 (notAhead x) (notAhead y) :=
  steady (takes_notAhead x) (takes_notAhead y) fun _ clear short => (h.agree clear short).notAhead

/-- What is read again and again, also where it strands in the end. -/
theorem Carries.loop (h : Carries D E n 1 x y)
    (refuses : ∀ cs, D cs → x.Refuses cs ∧ y.Refuses cs) {as : List α}
    (loop : Loop x c as c') (clear : Clear c.rest) (short : c.rest.length < n) :
    Loop y (c.before E) as (c'.before E)
      ∨ D c'.rest ∧ ∃ bs c₂, Loop y (c.before E) bs c₂ ∧ D c₂.rest := by
  induction loop with
  | @stop c no =>
      obtain agree | ⟨a, c₁, b, c₂, left, -⟩ := h.same c clear short
      · exact .inl (.stop (agree.refuses no))
      · rw [no] at left
        cases left
  | @next c c₁ c' a as first takes later ih =>
      obtain ⟨clear', -⟩ := h.takes.left first clear
      obtain agree | ⟨a', c₁', b, c₂, left, dead, right, dead'⟩ := h.same c clear short
      · have longer : (c₁.before E).rest.length < (c.before E).rest.length := by
          simp only [Cursor.before, List.length_append]
          omega
        obtain same | ⟨dead, bs, c₂, strand, dead'⟩ := ih clear' (takes.trans short)
        · exact .inl (.next (agree.reads first) longer same)
        · exact .inr ⟨dead, a :: bs, c₂, .next (agree.reads first) longer strand, dead'⟩
      · rw [first] at left
        cases left
        obtain ⟨q, is, -, shorter⟩ := h.takes' _ _ _ right
        have stops : c' = c₁ := by
          cases later with
          | stop => rfl
          | next again =>
              have no := (refuses _ dead).1 c₁.fault
              rw [again] at no
              cases no
        refine .inr ⟨stops ▸ dead, [b], c₂, .next right ?_ (.stop ?_), dead'⟩
        · rw [is, List.length_append]
          omega
        · exact (refuses _ dead').2 c₂.fault

theorem Carries.many (h : Carries D E n 1 x y)
    (refuses : ∀ cs, D cs → x.Refuses cs ∧ y.Refuses cs) :
    Carries D E n 0 (many x) (many y) where
  takes := h.takes.many
  takes' := h.takes'.many
  same c clear short := by
    obtain ⟨as, c', loop⟩ := h.takes.loop c
    obtain same | ⟨dead, bs, c₂, strand, dead'⟩ := h.loop refuses loop clear short
    · exact .inl (agree_some loop.many same.many)
    · exact .inr ⟨as, c', bs, c₂, loop.many, dead, strand.many, dead'⟩

theorem Carries.repeated (h : Steady E n 1 x y) : Steady E n 0 (Reader.many x) (Reader.many y) :=
  h.many fun _ => False.elim

theorem Carries.repeated1 (h : Steady E n 1 x y) :
    Steady E n 1 (Reader.many1 x) (Reader.many1 y) :=
  h.andThen fun _ => h.repeated.andThen fun _ => steady_pure _

/-- Where more than blank space is left a lexeme is read from there, if nothing or a new line comes
after the text. -/
theorem agree_lexeme {lexeme : List Char → Option (α × List Char)} (h : Lexical lexeme)
    (line : E.more = [] ∨ ∃ t, E.more = '\n' :: t) (settled : Settled c.rest)
    (some : skipBlank false c.rest ≠ []) : Agree E (token lexeme) (token lexeme) c := by
  unfold Agree token
  dsimp only [Cursor.before]
  cases blank : skipBlank false c.rest with
  | nil => exact absurd blank some
  | cons d t =>
      rw [skipBlank_append blank]
      obtain ⟨p, is, ends⟩ := exists_blank blank
      have settled : Settled (d :: t) := (Whole.settled_append ends).mp (is ▸ settled)
      rw [← List.cons_append]
      obtain nothing | ⟨t', line⟩ := line
      · rw [nothing, List.append_nil]
        cases lexeme (d :: t) with
        | none => rfl
        | some found => simp
      · rw [line, h.goesOn _ _ settled]
        cases lexeme (d :: t) with
        | none => rfl
        | some found => simp

section

variable {lexeme : List Char → Option (α × List Char)} (goes : E.Continues) (h : Lexical lexeme)

include goes h

theorem agree_token (clear : Clear c.rest) (some : skipBlank false c.rest ≠ []) :
    Agree E (token lexeme) (token lexeme) c :=
  agree_lexeme h (goes.imp_right fun ⟨t, line⟩ => ⟨',' :: t, line⟩) clear.settled some

/-- A lexeme that no comma begins. -/
theorem steady_token (comma : ∀ t, lexeme (',' :: t) = none) :
    Steady E n 1 (token lexeme) (token lexeme) := by
  refine steady (takes_token h) (takes_token h) fun c clear _ => ?_
  by_cases blank : skipBlank false c.rest = []
  · have none : token lexeme c = none := by rw [token, blank, h.nothing]; rfl
    refine agree_none none ?_
    unfold token
    dsimp only [Cursor.before]
    obtain nothing | ⟨t, line⟩ := goes
    · rw [nothing, List.append_nil, blank, h.nothing]
      rfl
    · rw [line, skipBlank_newline blank]
      change (lexeme (',' :: t)).map _ = _
      rw [comma]
      rfl
  · exact agree_token goes h clear blank

end

end Reader

end TablePlan.Grammar
