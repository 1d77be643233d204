import TablePlan.Grammar.Expression

/-!
# What a reader does at given characters

`reader.Reads cs a rest` says that the reader reads `a` at the characters `cs` and stops before
`rest`, whatever faults there were; `reader.Refuses cs` that it reads nothing there. There is one
rule for each way to put readers together, so what a rule of the notation reads is put together
from what its parts read and refuse.
-/

namespace TablePlan.Grammar

namespace Reader

variable {α β : Type}

/-- At the characters `cs` the reader reads `a` and leaves `rest`. -/
def Reads (reader : Reader α) (cs : List Char) (a : α) (rest : List Char) : Prop :=
  ∀ fault, reader ⟨cs, fault⟩ = some (a, ⟨rest, fault⟩)

/-- At the characters `cs` the reader reads nothing. -/
def Refuses (reader : Reader α) (cs : List Char) : Prop :=
  ∀ fault, reader ⟨cs, fault⟩ = none

variable {x y : Reader α} {f : α → Reader β} {cs mid rest : List Char} {a : α} {b : β}

theorem reads_pure (a : α) (cs : List Char) : Reads (pure a : Reader α) cs a cs :=
  fun _ => rfl

theorem refuses_failure (cs : List Char) : Refuses (failure : Reader α) cs :=
  fun _ => rfl

theorem Reads.bind (first : x.Reads cs a mid) (second : (f a).Reads mid b rest) :
    (x >>= f).Reads cs b rest := by
  intro fault
  change (x ⟨cs, fault⟩).bind (fun p => f p.1 p.2) = _
  rw [first fault]
  exact second fault

theorem Refuses.bind (first : x.Refuses cs) : (x >>= f).Refuses cs := by
  intro fault
  change (x ⟨cs, fault⟩).bind (fun p => f p.1 p.2) = _
  rw [first fault]
  rfl

theorem Reads.bind_refuses (first : x.Reads cs a mid) (second : (f a).Refuses mid) :
    (x >>= f).Refuses cs := by
  intro fault
  change (x ⟨cs, fault⟩).bind (fun p => f p.1 p.2) = _
  rw [first fault]
  exact second fault

/-- A value made of what is read. -/
theorem Reads.to (first : x.Reads cs a rest) (value : f a = pure b) : (x >>= f).Reads cs b rest :=
  first.bind (by rw [value]; exact reads_pure b rest)

theorem Reads.map {g : α → β} (h : x.Reads cs a rest) : (g <$> x).Reads cs (g a) rest := by
  rw [map_eq_pure_bind]
  exact h.to rfl

theorem Refuses.map {g : α → β} (h : x.Refuses cs) : (g <$> x).Refuses cs := by
  rw [map_eq_pure_bind]
  exact h.bind

theorem Reads.orElse (h : x.Reads cs a rest) : (x <|> y).Reads cs a rest := by
  intro fault
  change (x ⟨cs, fault⟩).orElse (fun _ => y ⟨cs, fault⟩) = _
  rw [h fault]
  rfl

/-- A choice comes to its second part where the first reads nothing. -/
theorem Refuses.orElse (no : x.Refuses cs) (h : y.Reads cs a rest) : (x <|> y).Reads cs a rest := by
  intro fault
  change (x ⟨cs, fault⟩).orElse (fun _ => y ⟨cs, fault⟩) = _
  rw [no fault]
  exact h fault

theorem Refuses.or (no : x.Refuses cs) (neither : y.Refuses cs) : (x <|> y).Refuses cs := by
  intro fault
  change (x ⟨cs, fault⟩).orElse (fun _ => y ⟨cs, fault⟩) = _
  rw [no fault]
  exact neither fault

theorem Reads.optional (h : x.Reads cs a rest) : (optional x).Reads cs (some a) rest :=
  h.map.orElse

theorem Refuses.optional (h : x.Refuses cs) : (optional x).Reads cs none cs :=
  h.map.orElse (reads_pure none cs)

theorem Refuses.notAhead (h : x.Refuses cs) : (notAhead x).Reads cs () cs := by
  intro fault
  simp only [Reader.notAhead, h fault]

/-! ### Repetition -/

/-- The reader reads one after another of `as` and cannot go on after that. -/
inductive Loop (x : Reader α) : Cursor → List α → Cursor → Prop
  | stop {c : Cursor} (no : x c = none) : Loop x c [] c
  | next {c c₁ c₂ : Cursor} {a : α} {as : List α} (first : x c = some (a, c₁))
      (takes : c₁.rest.length < c.rest.length) (later : Loop x c₁ as c₂) : Loop x c (a :: as) c₂

theorem Loop.many {c c' : Cursor} {as : List α} (h : Loop x c as c') :
    many x c = some (as, c') := by
  have bounded : ∀ fuel, c.rest.length ≤ fuel → repeated x fuel c = (as, c') := by
    induction h with
    | @stop c no =>
        intro fuel _
        cases fuel with
        | zero => rfl
        | succ fuel => rw [repeated, no]
    | @next c c₁ c₂ a as first takes _ ih =>
        intro fuel enough
        obtain ⟨fuel, rfl⟩ : ∃ n, fuel = n + 1 := ⟨fuel - 1, by omega⟩
        rw [repeated, first]
        simp only [ih fuel (by omega)]
  simp only [Reader.many, bounded _ (Nat.le_refl _)]

/-- The reader reads one after another of `as`, each from at least one character. -/
inductive Chain (x : Reader α) : List Char → List α → List Char → Prop
  | nil (cs : List Char) : Chain x cs [] cs
  | cons {cs mid rest : List Char} {a : α} {as : List α} (first : x.Reads cs a mid)
      (takes : mid.length < cs.length) (later : Chain x mid as rest) : Chain x cs (a :: as) rest

variable {as : List α}

theorem Chain.append {bs : List α} (first : Chain x cs as mid) (second : Chain x mid bs rest) :
    Chain x cs (as ++ bs) rest := by
  induction first with
  | nil => exact second
  | cons read takes _ ih => exact .cons read takes (ih second)

theorem Chain.length_le (h : Chain x cs as rest) : rest.length ≤ cs.length := by
  induction h with
  | nil => exact Nat.le_refl _
  | cons _ takes _ ih => exact Nat.le_trans ih (Nat.le_of_lt takes)

/-- A chain that cannot be continued is all that is read. -/
theorem Chain.loop (h : Chain x cs as rest) (stop : x.Refuses rest) (fault : Option Fault) :
    Loop x ⟨cs, fault⟩ as ⟨rest, fault⟩ := by
  induction h with
  | nil => exact .stop (stop fault)
  | cons first takes _ ih => exact .next (first fault) takes (ih stop)

/-- A repetition reads a chain that cannot be continued. -/
theorem Chain.many (h : Chain x cs as rest) (stop : x.Refuses rest) :
    (many x).Reads cs as rest :=
  fun fault => (h.loop stop fault).many

theorem Refuses.many (h : x.Refuses cs) : (many x).Reads cs [] cs :=
  (Chain.nil cs).many h

theorem Chain.many1 (first : x.Reads cs a mid) (later : Chain x mid as rest)
    (stop : x.Refuses rest) : (many1 x).Reads cs (a :: as) rest :=
  first.bind ((later.many stop).to rfl)

theorem Refuses.many1 (h : x.Refuses cs) : (many1 x).Refuses cs :=
  h.bind

end Reader

open Reader

/-! ### Lexemes -/

section

variable {α : Type} {lexeme : List Char → Option (α × List Char)} {cs text rest : List Char} {a : α}

theorem token_reads (blank : skipBlank false cs = text) (found : lexeme text = some (a, rest)) :
    (token lexeme).Reads cs a rest := by
  intro fault
  simp only [token, blank, found, Option.map_some]

theorem token_refuses (blank : skipBlank false cs = text) (none : lexeme text = none) :
    (token lexeme).Refuses cs := by
  intro fault
  simp only [token, blank, none, Option.map_none]

theorem sign_reads {word : String} (blank : skipBlank false cs = word.toList ++ rest) :
    (sign word).Reads cs () rest :=
  token_reads blank (by simp [expect?])

theorem sign_refuses {word : String} (blank : skipBlank false cs = text)
    (other : ¬ word.toList <+: text) : (sign word).Refuses cs :=
  token_refuses blank (by simpa [expect?] using other)

end

end TablePlan.Grammar
