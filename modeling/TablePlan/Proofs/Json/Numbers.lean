import TablePlan.Proofs.Decimal.Finite
import TablePlan.Proofs.Json.Decoding

/-!
# Documents with finite numbers

A number that is not finite is written as null. All other numbers show what they are: an integer
has digits and a sign only, a number with a fraction has a point or an exponent as well. So a
document whose numbers are finite is determined by its text.
-/

namespace TablePlan.Json

/-- The integers of a document and its other numbers satisfy these predicates. -/
inductive Numbers (integer : Int → Prop) (float : Float → Prop) : Json → Prop
  | null : Numbers integer float .null
  | bool (b : Bool) : Numbers integer float (.bool b)
  | int {i : Int} (h : integer i) : Numbers integer float (.int i)
  | float {x : Float} (h : float x) : Numbers integer float (.float x)
  | string (s : String) : Numbers integer float (.string s)
  | array {items : List Json} (each : ∀ item ∈ items, Numbers integer float item) :
      Numbers integer float (.array items)
  | object {members : List (String × Json)} (each : ∀ m ∈ members, Numbers integer float m.2) :
      Numbers integer float (.object members)

/-- A document that a text can show. -/
def Finite (j : Json) : Prop :=
  j.Numbers (fun _ => True) (·.isFinite)

namespace Numbers

variable {integer integer' : Int → Prop} {float float' : Float → Prop} {j : Json}

theorem mono (h : j.Numbers integer float) (integers : ∀ i, integer i → integer' i)
    (floats : ∀ x, float x → float' x) : j.Numbers integer' float' := by
  induction h with
  | null => exact .null
  | bool b => exact .bool b
  | int h => exact .int (integers _ h)
  | float h => exact .float (floats _ h)
  | string s => exact .string s
  | array _ each => exact .array each
  | object _ each => exact .object each

theorem of_float {x : Float} (h : (Json.float x).Numbers integer float) : float x := by
  cases h with
  | float h => exact h

theorem items {items : List Json} (h : (Json.array items).Numbers integer float) :
    ∀ item ∈ items, item.Numbers integer float := by
  cases h with
  | array each => exact each

theorem members {members : List (String × Json)} (h : (Json.object members).Numbers integer float) :
    ∀ m ∈ members, m.2.Numbers integer float := by
  cases h with
  | object each => exact each

end Numbers

/-! ### What the text of a scalar shows -/

/-- A character of an integer. -/
def IsIntegerChar (c : Char) : Prop :=
  c.isDigit ∨ c = '-'

instance : DecidablePred IsIntegerChar :=
  fun c => inferInstanceAs (Decidable (c.isDigit ∨ c = '-'))

/-- An integer is written with a sign and digits. -/
theorem text_of_int (i : Int) : ∀ c ∈ (int i).text.toList, IsIntegerChar c := by
  have digits (n : Nat) : ∀ c ∈ Nat.toDigits 10 n, IsIntegerChar c :=
    fun c inside => .inl (Decimal.isDigit_of_toDigits n c inside)
  rw [text]
  change ∀ c ∈ i.repr.toList, IsIntegerChar c
  cases i with
  | ofNat n =>
      rw [Int.repr, Nat.toList_repr]
      exact digits n
  | negSucc n =>
      rw [Int.repr, String.toList_append, Nat.toList_repr]
      exact List.forall_mem_cons.mpr ⟨by decide, digits _⟩

/-- A finite number that is no integer begins as integers do, and then shows that it is none. -/
theorem text_of_float {x : Float} (finite : x.isFinite) :
    (∃ c t, (float x).text.toList = c :: t ∧ IsIntegerChar c)
      ∧ ∃ c ∈ (float x).text.toList, ¬ IsIntegerChar c := by
  obtain ⟨b, parts⟩ := Decimal.isFinite_iff.mp finite
  rw [text, floatText, if_pos finite, Decimal.exchangeLayout.toList_text parts]
  obtain ⟨⟨c, t, spelled, digit⟩, marked⟩ := Decimal.exchangeLayout.body_spelled b
  obtain ⟨mark, inside, isMark⟩ := marked rfl
  have marks : ∀ c ∈ ['.', 'e'], ¬ IsIntegerChar c := by decide
  refine ⟨?_, mark, List.mem_append_right _ inside, marks mark isMark⟩
  cases b.negative
  · exact ⟨c, t, spelled, .inl digit⟩
  · exact ⟨'-', _, rfl, .inr rfl⟩

/-- A word is not written as a number is. -/
theorem text_of_word {j : Json} (h : j = null ∨ ∃ b, j = bool b) :
    ∃ c t, j.text.toList = c :: t ∧ ¬ IsIntegerChar c := by
  obtain rfl | ⟨b, rfl⟩ := h
  · exact ⟨'n', _, rfl, by decide⟩
  · cases b
    · exact ⟨'f', _, rfl, by decide⟩
    · exact ⟨'t', _, rfl, by decide⟩

theorem word_or_number {j : Json} (h : j.IsScalar) :
    (j = null ∨ ∃ b, j = bool b) ∨ (∃ i, j = int i) ∨ ∃ x, j = float x := by
  cases j with
  | null => exact .inl (.inl rfl)
  | bool b => exact .inl (.inr ⟨b, rfl⟩)
  | int i => exact .inr (.inl ⟨i, rfl⟩)
  | float x => exact .inr (.inr ⟨x, rfl⟩)
  | _ => exact h.elim

/-- Words and finite numbers with the same text are the same. -/
theorem eq_of_scalar_text {j j' : Json} (h : j.IsScalar) (h' : j'.IsScalar) (finite : j.Finite)
    (finite' : j'.Finite) (same : j.text = j'.text) : j = j' := by
  have not_number {j j' : Json} (word : j = null ∨ ∃ b, j = bool b)
      (number : (∃ i, j' = int i) ∨ ∃ x, j' = float x) (finite : j'.Finite) : j.text ≠ j'.text := by
    obtain ⟨c, t, spelled, other⟩ := text_of_word word
    intro same
    rw [same] at spelled
    obtain ⟨i, rfl⟩ | ⟨x, rfl⟩ := number
    · exact other (text_of_int i c (by simp [spelled]))
    · obtain ⟨⟨c', t', spelled', first⟩, -⟩ := text_of_float finite.of_float
      rw [spelled', List.cons.injEq] at spelled
      exact other (spelled.1 ▸ first)
  have not_integer {x : Float} (i : Int) (finite : x.isFinite) : (int i).text ≠ (float x).text := by
    obtain ⟨-, c, inside, mark⟩ := text_of_float finite
    intro same
    exact mark (text_of_int i c (same ▸ inside))
  obtain word | number := word_or_number h <;> obtain word' | number' := word_or_number h'
  · obtain rfl | ⟨b, rfl⟩ := word <;> obtain rfl | ⟨b', rfl⟩ := word'
    · rfl
    · exact absurd same (by cases b' <;> decide)
    · exact absurd same (by cases b <;> decide)
    · rw [Alike.eq_of_bool (.scalar h h' same)]
  · exact absurd same (not_number word number' finite')
  · exact absurd same.symm (not_number word' number finite)
  · obtain ⟨i, rfl⟩ | ⟨x, rfl⟩ := number <;> obtain ⟨i', rfl⟩ | ⟨x', rfl⟩ := number'
    · rw [Int.repr_inj.mp same]
    · exact absurd same (not_integer i finite'.of_float)
    · exact absurd same.symm (not_integer i' finite.of_float)
    · obtain ⟨b, parts⟩ := Decimal.isFinite_iff.mp finite.of_float
      obtain ⟨b', parts'⟩ := Decimal.isFinite_iff.mp finite'.of_float
      simp only [text, floatText, if_pos finite.of_float, if_pos finite'.of_float] at same
      rw [Decimal.exchangeLayout.text_injective parts parts' same]

/-- Documents with finite numbers that differ in numbers written alike at most do not differ. -/
theorem eq_of_alike {j j' : Json} (finite : j.Finite) (finite' : j'.Finite) (alike : Alike j j') :
    j = j' := by
  have parts {items items' : List Json} (each : ∀ item ∈ items, ∀ item', item'.Finite →
      Alike item item' → item = item') (finite' : ∀ item' ∈ items', item'.Finite)
      (alike : List.Forall₂ Alike items items') : items = items' := by
    induction alike with
    | nil => rfl
    | cons first _ ih =>
        rw [List.forall_mem_cons] at each finite'
        rw [each.1 _ finite'.1 first, ih each.2 finite'.2]
  induction finite generalizing j' with
  | null | bool _ | int _ | float _ =>
      cases alike with
      | scalar h h' same => exact eq_of_scalar_text h h' (by constructor <;> assumption) finite' same
  | string s =>
      cases alike with
      | scalar h => exact h.elim
      | string => rfl
  | array _ ih =>
      cases alike with
      | scalar h => exact h.elim
      | array alike => rw [parts (fun item own item' => ih item own) finite'.items alike]
  | @object members _ ih =>
      cases alike with
      | scalar h => exact h.elim
      | @object _ members' names alike =>
          have values : members.map Prod.snd = members'.map Prod.snd := by
            refine parts ?_ ?_ alike
            · rw [List.forall_mem_map]
              exact fun m own j' => ih m own
            · rw [List.forall_mem_map]
              exact finite'.members
          rw [← List.zip_unzip members, ← List.zip_unzip members', List.unzip_eq_map,
            List.unzip_eq_map]
          dsimp only
          rw [names, values]

end TablePlan.Json
