import TablePlan.Decimal.Layout
import TablePlan.Decimal.Reading
import TablePlan.Proofs.Text.Decoding

/-!
# The characters of numbers

An integer from zero on is written with digits only. Whatever its layout, the text of a double
consists of letters, digits, points and signs.
-/

namespace TablePlan.Decimal

/-! ### Integers -/

/-- The digits of an integer from zero on. -/
theorem toList_int {i : Int64} (h : 0 ≤ i) :
    (toString i).toList = Nat.toDigits 10 i.toInt.toNat := by
  have nonneg : 0 ≤ i.toInt := by simpa [Int64.le_iff_toInt_le] using h
  obtain ⟨n, is⟩ := Int.eq_ofNat_of_zero_le nonneg
  change (toString i.toInt).toList = _
  rw [is]
  change (toString n).toList = _
  simp

/-- The digits of a number begin with a digit. -/
theorem exists_digit (n : Nat) : ∃ c t, Nat.toDigits 10 n = c :: t ∧ c.isDigit := by
  cases digits : Nat.toDigits 10 n with
  | nil => exact absurd digits Nat.toDigits_ne_nil
  | cons c t =>
      refine ⟨c, t, rfl, Nat.isDigit_of_mem_toDigits (n := n) (b := 10) (by decide) (by decide) ?_⟩
      rw [digits]
      exact List.mem_cons_self

@[simp] theorem natOfDigits_toDigits (n : Nat) : natOfDigits (Nat.toDigits 10 n) = n := by
  rw [natOfDigits, ← Nat.ofDigitChars_eq_foldl]
  exact Nat.ofDigitChars_toDigits (by decide) (by decide)

/-- Digits are read as far as they go. -/
theorem spanDigits_append {digits rest : List Char} (all : ∀ c ∈ digits, c.isDigit)
    (stop : ∀ c ∈ rest.head?, c.isDigit = false) : spanDigits (digits ++ rest) = (digits, rest) := by
  rw [spanDigits, List.span_eq_takeWhile_dropWhile, Text.takeWhile_stop all stop,
    Text.dropWhile_stop all stop]

theorem spanDigits_all {digits : List Char} (all : ∀ c ∈ digits, c.isDigit) :
    spanDigits digits = (digits, []) := by
  have ends : ∀ c ∈ ([] : List Char).head?, c.isDigit = false := nofun
  simpa using spanDigits_append all ends

theorem isDigit_of_toDigits (n : Nat) : ∀ c ∈ Nat.toDigits 10 n, c.isDigit :=
  fun _ inside => Nat.isDigit_of_mem_toDigits (by decide) (by decide) inside

/-! ### Doubles -/

/-- A character that numbers are written with. -/
def IsNumberChar (c : Char) : Prop :=
  c.isAlphanum ∨ c ∈ ['.', '+', '-']

instance (c : Char) : Decidable (IsNumberChar c) :=
  inferInstanceAs (Decidable (_ ∨ _))

theorem isNumberChar_of_toDigits (n : Nat) : ∀ c ∈ Nat.toDigits 10 n, IsNumberChar c :=
  fun c inside => .inl (by simp [Char.isAlphanum, isDigit_of_toDigits n c inside])

theorem isNumberChar_of_replicate (n : Nat) : ∀ c ∈ List.replicate n '0', IsNumberChar c := by
  intro c inside
  rw [List.eq_of_mem_replicate inside]
  decide

namespace Layout

section

variable {digits : List Char}

theorem isNumberChar_positional (pointZero : Bool) (scale : Int)
    (each : ∀ c ∈ digits, IsNumberChar c) :
    ∀ c ∈ positionalText pointZero digits scale, IsNumberChar c := by
  simp only [positionalText]
  split
  · refine List.forall_mem_append.mpr ⟨List.forall_mem_append.mpr
      ⟨each, isNumberChar_of_replicate _⟩, ?_⟩
    cases pointZero <;> decide
  · split
    · exact List.forall_mem_append.mpr ⟨fun c inside => each c (List.mem_of_mem_take inside),
        List.forall_mem_cons.mpr ⟨by decide, fun c inside => each c (List.mem_of_mem_drop inside)⟩⟩
    · exact List.forall_mem_cons.mpr ⟨by decide, List.forall_mem_cons.mpr ⟨by decide,
        List.forall_mem_append.mpr ⟨isNumberChar_of_replicate _, each⟩⟩⟩

theorem isNumberChar_scientific (plus : Bool) (exponent : Int)
    (each : ∀ c ∈ digits, IsNumberChar c) :
    ∀ c ∈ scientificText plus digits exponent, IsNumberChar c := by
  have leading : ∀ c ∈ digits.take 1, IsNumberChar c :=
    fun c inside => each c (List.mem_of_mem_take inside)
  have sign : ∀ c ∈ (if exponent < 0 then ['-'] else if plus then ['+'] else []),
      IsNumberChar c := by
    split
    · decide
    · split <;> decide
  have marked := List.forall_mem_cons.mpr ⟨show IsNumberChar 'e' by decide, sign⟩
  have whole {fraction : List Char} (h : ∀ c ∈ fraction, IsNumberChar c) :=
    List.forall_mem_append.mpr ⟨List.forall_mem_append.mpr
      ⟨List.forall_mem_append.mpr ⟨leading, h⟩, marked⟩, isNumberChar_of_toDigits exponent.natAbs⟩
  unfold scientificText
  cases rest : digits.drop 1 with
  | nil => exact whole (List.forall_mem_nil _)
  | cons d tail =>
      exact whole (List.forall_mem_cons.mpr ⟨by decide, fun c inside =>
        each c (List.mem_of_mem_drop (rest.symm ▸ inside))⟩)

end

theorem isNumberChar_digits (layout : Layout) (d : Digits) :
    ∀ c ∈ layout.digitsText d, IsNumberChar c := by
  simp only [digitsText]
  split
  · exact isNumberChar_positional _ _ (isNumberChar_of_toDigits _)
  · exact isNumberChar_scientific _ _ (isNumberChar_of_toDigits _)

/-- The text of a double has only characters of numbers. -/
theorem isNumberChar_text (layout : Layout) (x : Float) :
    ∀ c ∈ (layout.text x).toList, IsNumberChar c := by
  unfold text
  split
  · split
    · decide
    · split <;> decide
  · rename_i b _
    rw [String.toList_ofList]
    refine List.forall_mem_append.mpr ⟨?_, ?_⟩
    · cases b.negative <;> decide
    · split
      · split <;> decide
      · exact layout.isNumberChar_digits _

theorem digits_ne_nil (layout : Layout) (d : Digits) : layout.digitsText d ≠ [] := by
  simp only [digitsText]
  split
  · unfold positionalText
    split
    · simp
    · dsimp only
      split <;> simp
  · simp [scientificText]

/-- The text of a double is not empty. -/
theorem text_ne_nil (layout : Layout) (x : Float) : (layout.text x).toList ≠ [] := by
  unfold text
  split
  · split
    · decide
    · split <;> decide
  · rw [String.toList_ofList]
    refine List.append_ne_nil_of_right_ne_nil _ ?_
    split
    · split <;> simp
    · exact layout.digits_ne_nil _

end Layout

end TablePlan.Decimal
