import TablePlan.Proofs.Grammar.Parentheses
import TablePlan.Proofs.Grammar.Stranding

/-!
# Reading inside parentheses

What is read takes as many parentheses that open as ones that close. So in a text in which all of
them are closed every rule of the notation reads the same when a new line and one more parenthesis
come after the text: wherever a parenthesis has been opened, the one that closes it is found in the
text itself.
-/

namespace TablePlan.Grammar

/-- A parenthesis that closes, on a new line. -/
def Context.closing : Context := ⟨['\n', ')'], none⟩

/-- Characters after which all quotes are closed, and all parentheses if `d` are open before. -/
structure Closes (d : Nat) (cs : List Char) : Prop where
  settled : Settled cs
  depth : (Nesting.after ⟨.outside, d⟩ cs).depth = 0

namespace Closes

variable {d d' : Nat} {cs p rest : List Char}

theorem fewer (h : Closes d cs) (less : d' ≤ d) : Closes d' cs := by
  have bound := Nesting.depth_mono (q := .outside) less cs
  rw [h.depth] at bound
  exact ⟨h.settled, Nat.le_zero.mp bound⟩

theorem append (balanced : Balanced p) : Closes d (p ++ cs) ↔ Closes d cs := by
  have depth : Nesting.after ⟨.outside, d⟩ (p ++ cs) = Nesting.after ⟨.outside, d⟩ cs := by
    rw [Nesting.after_append, balanced]
  refine ⟨fun h => ⟨balanced.whole.settled_append.mp h.settled, depth ▸ h.depth⟩, fun h => ?_⟩
  exact ⟨balanced.whole.settled_append.mpr h.settled, depth ▸ h.depth⟩

theorem opened (h : Closes d ('(' :: cs)) : Closes (d + 1) cs :=
  ⟨h.settled, h.depth⟩

/-- Blank space closes no parenthesis. -/
theorem not_blank (h : Closes (d + 1) cs) : skipBlank false cs ≠ [] := by
  intro blank
  have depth : (Nesting.after ⟨.outside, d + 1⟩ cs).depth = d + 1 := depth_of_blank blank (d + 1)
  rw [h.depth] at depth
  cases depth

theorem of_blank (blank : skipBlank false cs = []) : Closes 0 cs :=
  ⟨settled_of_blank blank, depth_of_blank blank 0⟩

end Closes

namespace Reader

variable {α β : Type} {n m k l : Nat} {x y : Reader α} {c c' : Cursor} {a : α}

/-- At fewer than `n` characters that close all parentheses `y` reads before one more what `x` reads
alone, which is at least `m` characters that close the parentheses they open. -/
structure Enclosed (n m : Nat) (x y : Reader α) : Prop where
  balanced : ∀ c a c', x c = some (a, c') → ∃ p, c.rest = p ++ c'.rest ∧ Balanced p ∧ m ≤ p.length
  same : ∀ c, Closes 0 c.rest → c.rest.length < n → Agree .closing x y c

namespace Enclosed

theorem takes (h : Enclosed n m x y) : x.Takes m := by
  intro c a c' read
  obtain ⟨p, is, balanced, takes⟩ := h.balanced c a c' read
  exact ⟨p, is, balanced.whole, takes⟩

theorem left (h : Enclosed n m x y) (read : x c = some (a, c')) {d : Nat}
    (closes : Closes d c.rest) : Closes d c'.rest ∧ c'.rest.length + m ≤ c.rest.length := by
  obtain ⟨p, is, balanced, takes⟩ := h.balanced c a c' read
  rw [is] at closes ⊢
  exact ⟨(Closes.append balanced).mp closes, by rw [List.length_append]; omega⟩

theorem weaken (h : Enclosed n m x y) (fewer : l ≤ n) (less : k ≤ m) : Enclosed l k x y where
  balanced c a c' read := by
    obtain ⟨p, is, balanced, takes⟩ := h.balanced c a c' read
    exact ⟨p, is, balanced, less.trans takes⟩
  same c closes short := h.same c closes (short.trans_le fewer)

theorem value (a : α) : Enclosed n 0 (pure a : Reader α) (pure a) where
  balanced := by
    rintro c _ _ ⟨⟩
    exact ⟨[], rfl, balanced_nil, Nat.le_refl 0⟩
  same _ _ _ := rfl

/-- At no text at all a reader may stand for any other. -/
theorem never : Enclosed 0 m (failure : Reader α) y where
  balanced _ _ _ read := by cases read
  same _ _ short := absurd short (Nat.not_lt_zero _)

section

variable {f g : α → Reader β}

theorem after (first : Enclosed n m x y) (second : ∀ a, Enclosed (n - m) k (f a) (g a)) :
    Enclosed n (m + k) (x >>= f) (y >>= g) where
  balanced c b c' read := by
    obtain ⟨⟨a, c₁⟩, start, rest⟩ := Option.bind_eq_some_iff.mp read
    obtain ⟨p, is, balanced, takes⟩ := first.balanced c a c₁ start
    obtain ⟨q, is', balanced', takes'⟩ := (second a).balanced c₁ b c' rest
    exact ⟨p ++ q, by rw [is, is', List.append_assoc], balanced.append balanced', by
      rw [List.length_append]; omega⟩
  same c closes short := (first.same c closes short).then fun a c' read => by
    obtain ⟨closes', shorter⟩ := first.left read closes
    exact (second a).same c' closes' (by omega)

/-- After a first character has been taken there are fewer than before. -/
theorem opens (first : Enclosed (n + 1) 1 x y) (second : ∀ a, Enclosed n k (f a) (g a)) :
    Enclosed (n + 1) 1 (x >>= f) (y >>= g) :=
  (first.after second).weaken (Nat.le_refl _) (Nat.le_add_right 1 k)

theorem andThen (first : Enclosed n m x y) (second : ∀ a, Enclosed n k (f a) (g a)) :
    Enclosed n m (x >>= f) (y >>= g) :=
  (first.after fun a => (second a).weaken (Nat.sub_le n m) (Nat.le_refl k)).weaken (Nat.le_refl n)
    (Nat.le_add_right m k)

theorem map (h : Enclosed n m x y) (f : α → β) : Enclosed n m (f <$> x) (f <$> y) := by
  rw [map_eq_pure_bind, map_eq_pure_bind]
  exact h.andThen fun a => value (f a)

end

theorem orElse {x' y' : Reader α} (first : Enclosed n m x y) (second : Enclosed n m x' y') :
    Enclosed n m (x <|> x') (y <|> y') where
  balanced c a c' read := by
    cases attempt : x c with
    | none =>
        rw [orElse_none attempt] at read
        exact second.balanced c a c' read
    | some found =>
        rw [orElse_some attempt] at read
        exact first.balanced c a c' (attempt.trans read)
  same c closes short := (first.same c closes short).or (second.same c closes short)

theorem optional (h : Enclosed n m x y) : Enclosed n 0 (optional x) (optional y) :=
  ((h.map some).weaken (Nat.le_refl n) (Nat.zero_le m)).orElse (value none)

theorem notAhead (h : Enclosed n m x y) : Enclosed n 0 (notAhead x) (notAhead y) where
  balanced c a c' read := by
    rw [notAhead_some read]
    exact ⟨[], rfl, balanced_nil, Nat.le_refl 0⟩
  same c closes short := (h.same c closes short).notAhead

/-- What is read again and again is the same before the parenthesis. -/
theorem loop (h : Enclosed n 1 x y) {as : List α} (loop : Loop x c as c')
    (closes : Closes 0 c.rest) (short : c.rest.length < n) :
    Loop y (c.before .closing) as (c'.before .closing) := by
  induction loop with
  | stop no => exact .stop ((h.same _ closes short).refuses no)
  | @next c c₁ c' a as first takes _ ih =>
      obtain ⟨closes', -⟩ := h.left first closes
      have longer : (c₁.before .closing).rest.length < (c.before .closing).rest.length := by
        simp only [Cursor.before, List.length_append]
        omega
      exact .next ((h.same c closes short).reads first) longer (ih closes' (takes.trans short))

theorem balanced_loop (h : Enclosed n m x y) {as : List α} (loop : Loop x c as c') :
    ∃ p, c.rest = p ++ c'.rest ∧ Balanced p := by
  induction loop with
  | stop => exact ⟨[], rfl, balanced_nil⟩
  | next first _ _ ih =>
      obtain ⟨p, is, balanced, -⟩ := h.balanced _ _ _ first
      obtain ⟨q, is', balanced'⟩ := ih
      exact ⟨p ++ q, by rw [is, is', List.append_assoc], balanced.append balanced'⟩

theorem many (h : Enclosed n 1 x y) : Enclosed n 0 (many x) (many y) where
  balanced c as c' read := by
    obtain ⟨as', c₁, loop⟩ := h.takes.loop c
    cases loop.many.symm.trans read
    obtain ⟨p, is, balanced⟩ := h.balanced_loop loop
    exact ⟨p, is, balanced, Nat.zero_le _⟩
  same c closes short := by
    obtain ⟨as, c', loop⟩ := h.takes.loop c
    exact agree_some loop.many (h.loop loop closes short).many

theorem many1 (h : Enclosed n 1 x y) : Enclosed n 1 (many1 x) (many1 y) :=
  h.andThen fun _ => h.many.andThen fun _ => value _

end Enclosed

/-! ### Lexemes -/

section

variable {lexeme : List Char → Option (α × List Char)} (h : Lexical lexeme)

include h

theorem balanced_token (even : Even lexeme) (read : token lexeme c = some (a, c')) :
    ∃ p, c.rest = p ++ c'.rest ∧ Balanced p ∧ 1 ≤ p.length := by
  obtain ⟨⟨a', rest⟩, found, same⟩ := Option.map_eq_some_iff.mp read
  cases same
  cases blank : skipBlank false c.rest with
  | nil =>
      rw [blank, h.nothing] at found
      cases found
  | cons d t =>
      obtain ⟨p, is, ends⟩ := exists_balanced_blank blank
      rw [blank] at found
      obtain ⟨q, is', balanced⟩ := even _ _ _ found
      obtain ⟨q', is'', -, some⟩ := h.takes _ _ _ found
      obtain rfl : q' = q := List.append_cancel_right (is''.symm.trans is')
      refine ⟨p ++ q', by rw [is, is', List.append_assoc], Balanced.append ends balanced, ?_⟩
      have := List.length_pos_iff.mpr some
      rw [List.length_append]
      omega

/-- A lexeme that no parenthesis begins is read alike before one. -/
theorem agree_before_closing (settled : Settled c.rest) (no : lexeme [')'] = none) :
    Agree .closing (token lexeme) (token lexeme) c := by
  by_cases blank : skipBlank false c.rest = []
  · refine agree_none (by rw [token, blank, h.nothing]; rfl) ?_
    unfold token
    dsimp only [Cursor.before, Context.closing]
    rw [skipBlank_newline blank]
    change (lexeme [')']).map _ = none
    rw [no]
    rfl
  · exact agree_lexeme h (.inr ⟨_, rfl⟩) settled blank

theorem enclosed_token (even : Even lexeme) : Enclosed n 1 (token lexeme) (token lexeme) where
  balanced _ _ _ read := balanced_token h even read
  same _ closes _ := agree_before_closing h closes.settled (even.closing h [])

end

/-- The characters that a sign is read from. -/
theorem sign_takes {word : String} {u : Unit} (read : sign word c = some (u, c'))
    (some : word.toList ≠ [] := by decide) :
    ∃ p, Balanced p ∧ c.rest = p ++ (word.toList ++ c'.rest) := by
  obtain ⟨t, blank⟩ := sign_some read
  have again := sign_reads blank c.fault
  cases read.symm.trans again
  cases whole : word.toList with
  | nil => exact absurd whole some
  | cons d word =>
      rw [whole] at blank
      obtain ⟨p, is, ends⟩ := exists_balanced_blank blank
      exact ⟨p, ends, is⟩

/-- A parenthesis is closed where the text alone closes it. -/
theorem Enclosed.parentheses (h : Enclosed n m x y) {f : α → β} :
    Enclosed (n + 1) 1 (do sign "("; let a ← x; sign ")"; return f a)
      (do sign "("; let a ← y; sign ")"; return f a) where
  balanced c b c' read := by
    obtain ⟨⟨_, c₁⟩, opens, read⟩ := Option.bind_eq_some_iff.mp read
    obtain ⟨⟨a, c₂⟩, inside, read⟩ := Option.bind_eq_some_iff.mp read
    obtain ⟨⟨_, c₃⟩, closes, read⟩ := Option.bind_eq_some_iff.mp read
    cases read
    obtain ⟨p, blank, is⟩ := sign_takes opens
    obtain ⟨q, is', balanced, -⟩ := h.balanced _ _ _ inside
    obtain ⟨r, blank', is''⟩ := sign_takes closes
    refine ⟨p ++ '(' :: (q ++ r ++ [')']), ?_,
      blank.append (balanced.append blank').parenthesized, ?_⟩
    · rw [is, is', is'']
      simp
    · rw [List.length_append, List.length_cons]
      omega
  same c closes short := by
    have opens : Agree .closing (sign "(") (sign "(") c :=
      agree_before_closing (lexical_expect (by decide) (by decide)) closes.settled rfl
    refine opens.then fun _ c₁ first => ?_
    obtain ⟨p, blank, is⟩ := sign_takes first
    rw [is] at closes short
    -- From here on the text has one parenthesis to close, so it is not at its end before that.
    have closes₁ : Closes 1 c₁.rest := ((Closes.append blank).mp closes).opened
    have shorter : c₁.rest.length < n := by
      simp only [List.length_append] at short
      have : "(".toList.length = 1 := rfl
      omega
    refine (h.same c₁ (closes₁.fewer (Nat.zero_le 1)) shorter).then fun a c₂ second => ?_
    obtain ⟨closes₂, -⟩ := h.left second closes₁
    have last : Agree .closing (sign ")") (sign ")") c₂ :=
      agree_lexeme (lexical_expect (by decide) (by decide)) (.inr ⟨_, rfl⟩) closes₂.settled
        closes₂.not_blank
    exact last.then fun _ _ _ => rfl

end Reader

end TablePlan.Grammar
