import TablePlan.Proofs.Decimal.Positive
import TablePlan.Proofs.Decimal.Shortest
import TablePlan.Proofs.Decimal.Spelling

/-!
# Doubles with the same text

The text of a finite double denotes its shortest decimal, which determines it, whatever the layout.
So constants with the same text are the same double.
-/

namespace TablePlan.Decimal

/-- The rational that the digits of a text denote: digits, perhaps a fraction and an exponent. -/
def denoted (cs : List Char) : ℚ :=
  let (whole, rest) := spanDigits cs
  let (fraction, rest) := match rest with
    | '.' :: rest => spanDigits rest
    | _ => ([], rest)
  let exponent := (exponentPart? rest).elim 0 Prod.fst
  natOfDigits (whole ++ fraction) * (10 : ℚ) ^ (exponent - fraction.length)

/-! ### Reading the parts of a text -/

theorem natOfDigits_append (ds es : List Char) :
    natOfDigits (ds ++ es) = natOfDigits ds * 10 ^ es.length + natOfDigits es := by
  have shifted (n : Nat) (es : List Char) :
      es.foldl (fun n c => 10 * n + (c.toNat - '0'.toNat)) n
        = n * 10 ^ es.length + natOfDigits es := by
    unfold natOfDigits
    induction es generalizing n with
    | nil => simp
    | cons c es ih =>
        rw [List.foldl_cons, List.foldl_cons, ih, ih (10 * 0 + _), List.length_cons, Nat.pow_succ]
        ring
  rw [natOfDigits, List.foldl_append, shifted]
  rfl

theorem natOfDigits_zeros (n : Nat) : natOfDigits (List.replicate n '0') = 0 := by
  induction n with
  | zero => rfl
  | succ n ih =>
      rw [List.replicate_succ', natOfDigits_append, ih]
      rfl

theorem isDigit_of_zeros (n : Nat) : ∀ c ∈ List.replicate n '0', c.isDigit := by
  intro c inside
  rw [List.eq_of_mem_replicate inside]
  rfl

section

variable {whole fraction rest : List Char}

theorem denoted_fraction (hw : ∀ c ∈ whole, c.isDigit) (hf : ∀ c ∈ fraction, c.isDigit)
    (stop : ∀ c ∈ rest.head?, c.isDigit = false) :
    denoted (whole ++ '.' :: (fraction ++ rest)) = natOfDigits (whole ++ fraction)
      * (10 : ℚ) ^ ((exponentPart? rest).elim 0 Prod.fst - fraction.length) := by
  have point : ∀ c ∈ ('.' :: (fraction ++ rest)).head?, c.isDigit = false := by
    rintro c ⟨⟩
    rfl
  have pieces := spanDigits_append hf stop
  unfold denoted
  rw [spanDigits_append hw point]
  change _ * (10 : ℚ) ^ ((exponentPart? (spanDigits (fraction ++ rest)).2).elim 0 Prod.fst
    - ((spanDigits (fraction ++ rest)).1.length : Int)) = _
  change (natOfDigits (whole ++ (spanDigits (fraction ++ rest)).1) : ℚ) * _ = _
  rw [pieces]

theorem denoted_point (hw : ∀ c ∈ whole, c.isDigit) (hf : ∀ c ∈ fraction, c.isDigit) :
    denoted (whole ++ '.' :: fraction)
      = natOfDigits (whole ++ fraction) * (10 : ℚ) ^ (-(fraction.length : Int)) := by
  have ends : ∀ c ∈ ([] : List Char).head?, c.isDigit = false := nofun
  have nothing : exponentPart? [] = none := rfl
  have read := denoted_fraction hw hf ends
  rwa [List.append_nil, nothing, Option.elim_none, zero_sub] at read

theorem denoted_whole (hw : ∀ c ∈ whole, c.isDigit)
    (stop : ∀ c ∈ rest.head?, c.isDigit = false ∧ c ≠ '.') : denoted (whole ++ rest)
      = natOfDigits whole * (10 : ℚ) ^ (exponentPart? rest).elim 0 Prod.fst := by
  unfold denoted
  rw [spanDigits_append hw fun c first => (stop c first).1]
  dsimp only
  split
  · exact absurd rfl (stop '.' rfl).2
  · simp

/-- The positional text of digits with a scale. -/
theorem denoted_positional (pointZero : Bool) {digits : List Char}
    (all : ∀ c ∈ digits, c.isDigit) (scale : Int) :
    denoted (Layout.positionalText pointZero digits scale)
      = natOfDigits digits * (10 : ℚ) ^ scale := by
  unfold Layout.positionalText
  extract_lets point
  have behind : point = scale + digits.length := rfl
  clear_value point
  split
  · rename_i nonneg
    have zeros := List.forall_mem_append.mpr ⟨all, isDigit_of_zeros scale.toNat⟩
    have power : (10 : ℚ) ^ scale = 10 ^ scale.toNat := by
      rw [← zpow_natCast, Int.toNat_of_nonneg nonneg]
    cases pointZero
    · have nothing : exponentPart? [] = none := rfl
      rw [if_neg (by simp), denoted_whole zeros (by simp), natOfDigits_append,
        natOfDigits_zeros, power, nothing]
      simp
    · rw [if_pos rfl, denoted_point zeros (by decide), natOfDigits_append, natOfDigits_append,
        natOfDigits_zeros, power]
      simp [natOfDigits]
  · split
    · rw [denoted_point (fun c here => all c (List.mem_of_mem_take here))
        (fun c here => all c (List.mem_of_mem_drop here)), List.take_append_drop]
      congr 2
      rw [List.length_drop]
      omega
    · have zeros := List.forall_mem_append.mpr ⟨isDigit_of_zeros (-point).toNat, all⟩
      have text : '0' :: '.' :: List.replicate (-point).toNat '0' ++ digits
          = ['0'] ++ '.' :: (List.replicate (-point).toNat '0' ++ digits) := by simp
      rw [text, denoted_point (by decide) zeros, natOfDigits_append, natOfDigits_append,
        natOfDigits_zeros]
      have length : -((List.replicate (-point).toNat '0' ++ digits).length : Int) = scale := by
        rw [List.length_append, List.length_replicate]
        omega
      rw [length]
      simp [natOfDigits]

/-- The exponent part of a text. -/
theorem exponentPart?_written (plus : Bool) (exponent : Int) :
    exponentPart? ('e' :: ((if exponent < 0 then ['-'] else if plus then ['+'] else [])
      ++ Nat.toDigits 10 exponent.natAbs)) = some (exponent, []) := by
  have digits := spanDigits_all (isDigit_of_toDigits exponent.natAbs)
  have number := natOfDigits_toDigits exponent.natAbs
  obtain ⟨c, t, whole, digit⟩ := exists_digit exponent.natAbs
  have minus : c ≠ '-' := by
    rintro rfl
    cases digit
  have positive : c ≠ '+' := by
    rintro rfl
    cases digit
  rw [whole] at digits number ⊢
  by_cases negative : exponent < 0
  · have size : -|exponent| = exponent := by rw [abs_of_neg negative, neg_neg]
    simp [exponentPart?, negative, digits, number, size]
  · have size : |exponent| = exponent := abs_of_nonneg (not_lt.mp negative)
    cases plus <;> simp [exponentPart?, negative, digits, number, size, minus, positive]

theorem denoted_scientific (plus : Bool) (exponent : Int) {first : Char} {others : List Char}
    (all : ∀ c ∈ first :: others, c.isDigit) :
    denoted (Layout.scientificText plus (first :: others) exponent)
      = natOfDigits (first :: others) * (10 : ℚ) ^ (exponent - others.length) := by
  rw [List.forall_mem_cons] at all
  have written := exponentPart?_written plus exponent
  generalize tail : (if exponent < 0 then ['-'] else if plus then ['+'] else [])
      ++ Nat.toDigits 10 exponent.natAbs = digits at written
  have one : ∀ c ∈ [first], c.isDigit := by simpa using all.1
  cases others with
  | nil =>
      have text : Layout.scientificText plus [first] exponent = [first] ++ 'e' :: digits := by
        simp [Layout.scientificText, ← tail]
      rw [text, denoted_whole one (by rintro c ⟨⟩; decide), written]
      simp
  | cons second others =>
      have text : Layout.scientificText plus (first :: second :: others) exponent
          = [first] ++ '.' :: (second :: others ++ 'e' :: digits) := by
        simp [Layout.scientificText, ← tail]
      rw [text, denoted_fraction one all.2 (by rintro c ⟨⟩; rfl), written]
      rfl

end

/-- The text of a decimal denotes it, whatever its layout. -/
theorem denoted_digits (layout : Layout) (d : Digits) :
    denoted (layout.digitsText d) = d.value := by
  obtain ⟨first, others, whole, -⟩ := exists_digit d.coefficient
  have number := natOfDigits_toDigits d.coefficient
  have all := isDigit_of_toDigits d.coefficient
  unfold Layout.digitsText Digits.value
  dsimp only
  split
  · rw [denoted_positional _ all, number]
  · rw [whole] at all number ⊢
    rw [denoted_scientific _ _ all, number]
    congr 2
    rw [List.length_cons]
    omega

/-! ### Doubles -/

/-- A finite double without a sign. -/
def Unsigned (x : Float) : Prop :=
  ∃ b, Binary.ofFloat? x = some b ∧ b.negative = false

/-- The parts of a finite double are those of zero, or in the one form that doubles have. -/
theorem canonical_of_ofFloat {x : Float} {b : Binary} (h : Binary.ofFloat? x = some b) :
    b.mantissa = 0 ∧ b.exponent = -1074 ∨ Canonical b.mantissa b.exponent := by
  unfold Binary.ofFloat? at h
  extract_lets bits biased fraction negative at h
  have below : fraction < 2 ^ 52 := Nat.mod_lt _ (by decide)
  split at h
  · cases h
  · split at h
    · cases h
      by_cases zero : fraction = 0
      · exact .inl ⟨zero, rfl⟩
      · exact .inr ⟨by dsimp only; omega, by dsimp only; omega, le_refl _, .inl rfl⟩
    · cases h
      simp only [Nat.pow_eq]
      exact .inr ⟨by omega, by omega, by omega, .inr (by omega)⟩

/-- A finite double is determined by its parts. -/
theorem eq_of_ofFloat {x y : Float} {b : Binary} (hx : Binary.ofFloat? x = some b)
    (hy : Binary.ofFloat? y = some b) : x = y := by
  have range (z : Float) : z.toBits.toNat < 2 ^ 64 := z.toBits.toNat_lt
  have bits : x.toBits.toNat = y.toBits.toNat := by
    have rx := range x
    have ry := range y
    unfold Binary.ofFloat? at hx hy
    simp only [Nat.pow_eq, Nat.reducePow] at hx hy
    split at hx
    · cases hx
    · split at hx <;> cases hx <;> split at hy
      · cases hy
      · split at hy <;> simp only [Option.some.injEq, Binary.mk.injEq] at hy
        · obtain ⟨sign, fraction, -⟩ := hy
          rw [Bool.eq_iff_iff, beq_iff_eq, beq_iff_eq] at sign
          omega
        · omega
      · cases hy
      · split at hy <;> simp only [Option.some.injEq, Binary.mk.injEq] at hy
        · omega
        · obtain ⟨sign, fraction, exponent⟩ := hy
          rw [Bool.eq_iff_iff, beq_iff_eq, beq_iff_eq] at sign
          omega
  obtain ⟨⟨b, valid⟩⟩ := x
  obtain ⟨⟨b', valid'⟩⟩ := y
  have same : b = b' := UInt64.toNat_inj.mp bits
  subst same
  rfl

namespace Layout

section

variable (layout : Layout)

/-- The text of a finite double without its sign. -/
def body (b : Binary) : List Char :=
  if b.mantissa = 0 then if layout.pointZero then ['0', '.', '0'] else ['0']
  else layout.digitsText (shortest layout.tie b.mantissa b.exponent)

theorem toList_text {x : Float} {b : Binary} (h : Binary.ofFloat? x = some b) :
    (layout.text x).toList = (if b.negative then ['-'] else []) ++ layout.body b := by
  simp [Layout.text, h, body]

/-- Digits begin with a digit, and show where the point is if whole numbers do. -/
theorem digits_spelled (d : Digits) :
    (∃ c t, layout.digitsText d = c :: t ∧ c.isDigit)
      ∧ (layout.pointZero → ∃ c ∈ layout.digitsText d, c ∈ ['.', 'e']) := by
  obtain ⟨first, others, whole, digit⟩ := exists_digit d.coefficient
  simp only [digitsText, whole]
  split
  · unfold positionalText
    extract_lets point
    split
    · exact ⟨⟨first, _, rfl, digit⟩, fun pointed => ⟨'.', by simp [pointed], by decide⟩⟩
    · split
      · rename_i inside
        obtain ⟨n, steps⟩ : ∃ n, point.toNat = n + 1 := ⟨point.toNat - 1, by omega⟩
        rw [steps]
        exact ⟨⟨first, _, rfl, digit⟩, fun _ => ⟨'.', by simp, by decide⟩⟩
      · exact ⟨⟨'0', _, rfl, rfl⟩, fun _ => ⟨'.', by simp, by decide⟩⟩
  · exact ⟨⟨first, _, rfl, digit⟩, fun _ => ⟨'e', by simp [scientificText], by decide⟩⟩

theorem body_spelled (b : Binary) : (∃ c t, layout.body b = c :: t ∧ c.isDigit)
    ∧ (layout.pointZero → ∃ c ∈ layout.body b, c ∈ ['.', 'e']) := by
  unfold body
  split
  · split
    · exact ⟨⟨'0', _, rfl, rfl⟩, fun _ => ⟨'.', by simp, by decide⟩⟩
    · rename_i whole
      exact ⟨⟨'0', _, rfl, rfl⟩, fun pointed => absurd pointed whole⟩
  · exact layout.digits_spelled _

theorem denoted_body {b : Binary} :
    denoted (layout.body b)
      = if b.mantissa = 0 then 0 else (shortest layout.tie b.mantissa b.exponent).value := by
  have zero : denoted ['0', '.', '0'] = 0 := by
    rw [show ['0', '.', '0'] = ['0'] ++ '.' :: (['0'] ++ []) from rfl,
      denoted_fraction (by decide) (by decide) (by simp)]
    simp [natOfDigits]
  have whole : denoted ['0'] = 0 := by
    rw [show ['0'] = ['0'] ++ [] from rfl, denoted_whole (by decide) (by simp)]
    simp [natOfDigits]
  unfold body
  split
  · split
    · exact zero
    · exact whole
  · exact denoted_digits layout _

/-- The parts of a double that its text shows without the sign. -/
theorem parts_of_body {x y : Float} {b b' : Binary} (ofX : Binary.ofFloat? x = some b)
    (ofY : Binary.ofFloat? y = some b') (same : layout.body b = layout.body b') :
    b.mantissa = b'.mantissa ∧ b.exponent = b'.exponent := by
  have positive {b : Binary} (h : Canonical b.mantissa b.exponent) :
      0 < (shortest layout.tie b.mantissa b.exponent).value := by
    refine lt_of_lt_of_le ?_ (rounds_shortest _ _ h.pos).lower
    have quarters : 0 < 4 * b.mantissa - gap b.mantissa b.exponent := by
      have pos := h.pos
      obtain one | two := gap_bounds b.mantissa b.exponent <;> omega
    have := Nat.cast_pos (α := ℚ).mpr quarters
    positivity
  have values := congrArg denoted same
  rw [denoted_body, denoted_body] at values
  obtain ⟨none, least⟩ | form := canonical_of_ofFloat ofX <;>
  obtain ⟨none', least'⟩ | form' := canonical_of_ofFloat ofY
  · exact ⟨none.trans none'.symm, least.trans least'.symm⟩
  · rw [if_pos none, if_neg form'.pos.ne'] at values
    exact absurd values (positive form').ne
  · rw [if_neg form.pos.ne', if_pos none'] at values
    exact absurd values (positive form).ne'
  · rw [if_neg form.pos.ne', if_neg form'.pos.ne'] at values
    exact shortest_determines _ form form' values

/-- Finite doubles with the same text are the same. -/
theorem text_injective {x y : Float} {b b' : Binary} (ofX : Binary.ofFloat? x = some b)
    (ofY : Binary.ofFloat? y = some b') (same : layout.text x = layout.text y) : x = y := by
  have texts := congrArg String.toList same
  rw [layout.toList_text ofX, layout.toList_text ofY] at texts
  obtain ⟨⟨c, t, spelled, digit⟩, -⟩ := layout.body_spelled b
  obtain ⟨⟨c', t', spelled', digit'⟩, -⟩ := layout.body_spelled b'
  have signs : b.negative = b'.negative ∧ layout.body b = layout.body b' := by
    cases negative : b.negative <;> cases negative' : b'.negative <;>
      simp only [negative, negative', if_true, Bool.false_eq_true, if_false, List.nil_append,
        List.cons_append, List.cons.injEq, true_and] at texts
    · exact ⟨rfl, texts⟩
    · rw [spelled, List.cons.injEq] at texts
      rw [texts.1] at digit
      cases digit
    · rw [spelled', List.cons.injEq] at texts
      rw [← texts.1] at digit'
      cases digit'
    · exact ⟨rfl, texts⟩
  obtain ⟨mantissas, exponents⟩ := layout.parts_of_body ofX ofY signs.2
  have whole : b = b' := by
    cases b
    cases b'
    simp_all
  exact eq_of_ofFloat ofX (whole ▸ ofY)

end

end Layout

/-- Doubles whose constants have the same text are the same. -/
theorem literal_injective {x y : Float} (hx : Unsigned x) (hy : Unsigned y)
    (same : literalLayout.text x = literalLayout.text y) : x = y := by
  obtain ⟨b, ofX, -⟩ := hx
  obtain ⟨b', ofY, -⟩ := hy
  exact literalLayout.text_injective ofX ofY same

/-- A constant with a fraction begins with a digit but is no integer. -/
theorem literal_spelled {x : Float} (h : Unsigned x) :
    (∃ c t, (literalLayout.text x).toList = c :: t ∧ c.isDigit)
      ∧ ∃ c ∈ (literalLayout.text x).toList, c.isDigit = false := by
  obtain ⟨b, ofX, signX⟩ := h
  rw [literalLayout.toList_text ofX, signX]
  obtain ⟨first, marked⟩ := literalLayout.body_spelled b
  obtain ⟨c, inside, mark⟩ := marked rfl
  have other : ∀ c ∈ ['.', 'e'], c.isDigit = false := by decide
  exact ⟨first, c, inside, other c mark⟩

end TablePlan.Decimal
