import TablePlan.Grammar.Lexeme
import TablePlan.Proofs.Decimal.Spelling
import TablePlan.Proofs.Text.Quoted

/-!
# Lexemes read as they are written

Words, numbers and quoted texts are read back from the way they are written, as long as no
character follows that could belong to them.
-/

namespace TablePlan.Grammar

/-! ### Words -/

theorem isNameChar_of_isNameStart {c : Char} (start : isNameStart c) : isNameChar c := by
  rw [isNameStart, Bool.or_eq_true] at start
  rw [isNameChar, Char.isAlphanum, Bool.or_eq_true, Bool.or_eq_true]
  exact start.imp_left .inl

theorem toList_of_plain {name : String} (h : isPlainName name) :
    ∃ c cs, name.toList = c :: cs ∧ isNameStart c ∧ ∀ c ∈ cs, isNameChar c := by
  unfold isPlainName at h
  split at h
  · cases h
  · rename_i c cs whole
    rw [Bool.and_eq_true, List.all_eq_true] at h
    exact ⟨c, cs, whole, h⟩

/-- A word is read as far as it goes. -/
theorem word?_append {name : String} {rest : List Char} (plain : isPlainName name)
    (stop : ∀ c ∈ rest.head?, isNameChar c = false) :
    word? (name.toList ++ rest) = some (name, rest) := by
  obtain ⟨c, cs, whole, start, all⟩ := toList_of_plain plain
  rw [whole, List.cons_append, word?, if_pos start, Text.takeWhile_stop all stop,
    Text.dropWhile_stop all stop, ← whole, String.ofList_toList]

theorem name?_append {name : String} {rest : List Char} (plain : isPlainName name)
    (free : name ∉ keywords) (stop : ∀ c ∈ rest.head?, isNameChar c = false) :
    name? (name.toList ++ rest) = some (name, rest) := by
  simp [name?, word?_append plain stop, free]

/-- No name is a keyword. -/
theorem name?_keyword {name : String} {rest : List Char} (plain : isPlainName name)
    (keyword : name ∈ keywords) (stop : ∀ c ∈ rest.head?, isNameChar c = false) :
    name? (name.toList ++ rest) = none := by
  simp [name?, word?_append plain stop, keyword]

theorem word?_of_start {c : Char} {cs : List Char} (h : isNameStart c = false) :
    word? (c :: cs) = none := by
  simp [word?, h]

theorem name?_of_start {c : Char} {cs : List Char} (h : isNameStart c = false) :
    name? (c :: cs) = none := by
  simp [name?, word?_of_start h]

/-- A word for something: letters, digits and underscores, the first of them no digit, that are not
set apart for the grammar. -/
structure IsName (name : String) : Prop where
  plain : isPlainName name
  free : name ∉ keywords

theorem name?_some {cs rest : List Char} {name : String} (found : name? cs = some (name, rest)) :
    cs = name.toList ++ rest ∧ IsName name := by
  obtain ⟨⟨word, rest'⟩, read, found⟩ := Option.bind_eq_some_iff.mp found
  dsimp only at found
  split at found
  · cases found
  · rename_i free
    cases found
    unfold word? at read
    split at read
    · cases read
    · rename_i c cs
      split at read
      · rename_i start
        cases read
        refine ⟨by simp, ?_, by simpa using free⟩
        simp [isPlainName, start, List.all_takeWhile]
      · cases read

theorem splat?_some {cs rest : List Char} {name : String} (found : splat? cs = some (name, rest)) :
    cs = name.toList ++ '.' :: '.' :: '.' :: rest ∧ IsName name := by
  obtain ⟨⟨name', mid⟩, read, found⟩ := Option.bind_eq_some_iff.mp found
  obtain ⟨⟨_, rest'⟩, dots, found⟩ := Option.bind_eq_some_iff.mp found
  cases found
  obtain ⟨rfl, plain⟩ := name?_some read
  refine ⟨?_, plain⟩
  unfold expect? at dots
  split at dots
  · rename_i begins
    obtain ⟨more, rfl⟩ := List.isPrefixOf_iff_prefix.mp begins
    cases dots
    rfl
  · cases dots

/-! ### Numbers -/

/-- What an integer is written as: digits whose value is in range. -/
structure IsNumeral (digits : List Char) : Prop where
  some : digits ≠ []
  all : ∀ c ∈ digits, c.isDigit
  fits : Decimal.natOfDigits digits ≤ Int64.maxValue.toInt.toNat

theorem isNumeral_toDigits (i : Int64) : IsNumeral (Nat.toDigits 10 i.toInt.toNat) where
  some := Nat.toDigits_ne_nil
  all := Decimal.isDigit_of_toDigits _
  fits := by
    rw [Decimal.natOfDigits_toDigits]
    exact Int.toNat_le_toNat i.toInt_le

theorem IsNumeral.exists_cons {digits : List Char} (h : IsNumeral digits) :
    ∃ c t, digits = c :: t ∧ c.isDigit := by
  cases digits with
  | nil => exact absurd rfl h.some
  | cons c t => exact ⟨c, t, rfl, h.all c List.mem_cons_self⟩

theorem not_nameStart_of_isDigit {c : Char} (digit : c.isDigit) : isNameStart c = false := by
  by_contra start
  rw [isDigit_of_isNameStart (by simpa using start)] at digit
  cases digit

/-- Digits are read as far as they go. -/
theorem digits?_append {digits rest : List Char} (h : IsNumeral digits)
    (stop : ∀ c ∈ rest.head?, c.isDigit = false) :
    digits? (digits ++ rest) = some (digits, rest) := by
  rw [digits?, Decimal.spanDigits_append h.all stop]
  split
  · rename_i none
    exact absurd (Prod.mk.inj none).1 h.some
  · rfl

theorem digits?_of_start {c : Char} {cs : List Char} (h : c.isDigit = false) :
    digits? (c :: cs) = none := by
  simp [digits?, Decimal.spanDigits, List.span_eq_takeWhile_dropWhile, List.takeWhile, h]

/-- Digits without a fraction and an exponent after them are no fractional number. -/
theorem float?_digits {digits rest : List Char} (h : IsNumeral digits)
    (stop : ∀ c ∈ rest.head?, c.isDigit = false ∧ c ≠ '.' ∧ c ≠ 'e' ∧ c ≠ 'E') :
    float? (digits ++ rest) = none := by
  rw [float?, digits?_append h fun c first => (stop c first).1]
  cases rest with
  | nil => rfl
  | cons c rest =>
      obtain ⟨-, point, small, capital⟩ := stop c rfl
      simp [Decimal.exponentPart?, point, small, capital]

theorem float?_of_start {c : Char} {cs : List Char} (h : c.isDigit = false) :
    float? (c :: cs) = none := by
  simp [float?, digits?_of_start h]

/-! ### Quoted texts -/

/-- A character that is written between quotes as itself or as an escape of one letter. -/
def IsSimple (c : Char) : Prop :=
  32 ≤ c.toNat ∧ c.toNat < 127 ∨ c = '\n' ∨ c = '\t' ∨ c = '\r'

instance : DecidablePred IsSimple :=
  fun _ => inferInstanceAs (Decidable (_ ∨ _))

theorem isSimple_of_isNameChar {c : Char} (inside : isNameChar c) : IsSimple c := by
  by_cases underscore : c = '_'
  · subst underscore
    decide
  · unfold isNameChar Char.isAlphanum Char.isAlpha Char.isUpper Char.isLower Char.isDigit at inside
    simp only [Bool.or_eq_true, Bool.and_eq_true, decide_eq_true_eq, beq_iff_eq, underscore, or_false,
      ge_iff_le, UInt32.le_iff_toNat_le] at inside
    have low : 'A'.val.toNat = 65 ∧ 'a'.val.toNat = 97 ∧ '0'.val.toNat = 48 := by decide
    have high : 'Z'.val.toNat = 90 ∧ 'z'.val.toNat = 122 ∧ '9'.val.toNat = 57 := by decide
    refine .inl ?_
    unfold Char.toNat
    omega

/-- A character that is written between quotes as itself or as an escape that is read back. -/
def Faithful (c : Char) : Prop :=
  (Text.isPrintable c ∧ ¬ Text.isExtending c) ∨ c ∈ ['\n', '\t', '\r']

instance : DecidablePred Faithful :=
  fun _ => inferInstanceAs (Decidable (_ ∨ _))

theorem IsSimple.faithful {c : Char} (simple : IsSimple c) : Faithful c := by
  obtain graphic | control := simple
  · refine .inl ⟨?_, ?_⟩
    · simp [Text.isPrintable, graphic]
    · simp [Text.isExtending, show ¬ 0x300 ≤ c.toNat by omega]
  · exact .inr (by simpa using control)

/-- What is read back of a character that is written between quotes. No escape stands for the null
character or for a code point, so these are read letter by letter. -/
def readBack (c : Char) : List Char :=
  if c = '\x00' then ['0']
  else if Faithful c then [c]
  else 'u' :: '\x7b' :: (Nat.toDigits 16 c.toNat ++ ['\x7d'])

/-- What is read back of a text that is written between quotes. -/
def readBackText (s : String) : String :=
  String.ofList (s.toList.flatMap readBack)

theorem readBack_eq_iff {c : Char} : readBack c = [c] ↔ Faithful c := by
  unfold readBack
  split
  · rename_i null
    subst null
    decide
  · split
    · rename_i faithful
      exact iff_of_true rfl faithful
    · rename_i other
      exact iff_of_false (by simp) other

theorem length_readBack_pos (c : Char) : 0 < (readBack c).length := by
  unfold readBack
  split
  · decide
  · split <;> simp

theorem quoted?_of_head {c : Char} {cs : List Char} (h : c ≠ '"') : quoted? (c :: cs) = none := by
  unfold quoted?
  split
  · rename_i same
    exact absurd (List.cons.inj same).1 h
  · rfl

/-- Characters that are neither a quote nor a backslash stand for themselves. -/
theorem quotedBody?_append {p : List Char} (plain : ∀ c ∈ p, c ≠ '"' ∧ c ≠ '\\') (rest : List Char) :
    quotedBody? (p ++ rest) = (quotedBody? rest).map fun (body, rest) => (p ++ body, rest) := by
  induction p with
  | nil => simp
  | cons c p ih =>
      rw [List.forall_mem_cons] at plain
      obtain ⟨quote, backslash⟩ := plain.1
      rw [List.cons_append, quotedBody?, ih plain.2, Option.map_map]
      · rfl
      · exact quote
      · exact fun single => absurd single backslash
      · exact fun c' rest' single => absurd single backslash

theorem quotedBody?_escape (c : Char) (rest : List Char) :
    quotedBody? (Text.escape c ++ rest)
      = (quotedBody? rest).map fun (body, rest) => (readBack c ++ body, rest) := by
  unfold Text.escape
  split
  case h_7 quote backslash feed carriage tab null =>
    split
    · rename_i itself
      have faithful : Faithful c := .inl (by simpa using itself)
      rw [readBack_eq_iff.mpr faithful]
      exact quotedBody?_append (by simpa using ⟨quote, backslash⟩) rest
    · rename_i hidden
      have other : ¬ Faithful c := by
        rintro (itself | control)
        · exact hidden (by simpa using itself)
        · simp only [List.mem_cons, List.not_mem_nil, or_false] at control
          exact control.elim feed fun control => control.elim tab carriage
      have plain : ∀ d ∈ '\x7b' :: (Nat.toDigits 16 c.toNat ++ ['\x7d']), d ≠ '"' ∧ d ≠ '\\' := by
        rw [List.forall_mem_cons, List.forall_mem_append]
        exact ⟨by decide, Text.of_hexDigits (by decide) _, by decide⟩
      rw [readBack, if_neg null, if_neg other]
      change (quotedBody? ('\x7b' :: (Nat.toDigits 16 c.toNat ++ ['\x7d']) ++ rest)).map _ = _
      rw [quotedBody?_append plain, Option.map_map]
      rfl
  all_goals rfl

theorem quoted?_quote (s : String) (rest : List Char) :
    quoted? ((Text.quote s).toList ++ rest) = some (readBackText s, rest) := by
  have body (cs : List Char) : quotedBody? (cs.flatMap Text.escape ++ '"' :: rest)
      = some (cs.flatMap readBack, rest) := by
    induction cs with
    | nil => rfl
    | cons c cs ih =>
        rw [List.flatMap_cons, List.append_assoc, quotedBody?_escape, ih]
        rfl
  rw [Text.toList_quote]
  simp [quoted?, body s.toList, readBackText]

theorem flatMap_readBack_iff {cs : List Char} :
    cs.flatMap readBack = cs ↔ ∀ c ∈ cs, Faithful c := by
  have atLeast (cs : List Char) : cs.length ≤ (cs.flatMap readBack).length := by
    induction cs with
    | nil => exact Nat.le_refl _
    | cons c cs ih =>
        have some := length_readBack_pos c
        rw [List.flatMap_cons, List.length_append, List.length_cons]
        omega
  induction cs with
  | nil => simp
  | cons c cs ih =>
      rw [List.flatMap_cons, List.forall_mem_cons]
      refine Iff.trans ?_ (and_congr readBack_eq_iff ih)
      constructor
      · intro same
        have lengths := congrArg List.length same
        rw [List.length_append, List.length_cons] at lengths
        have some := length_readBack_pos c
        have later := atLeast cs
        -- No character is lost, so none of the escapes is read as several.
        exact List.append_inj (by simpa using same) (by simp; omega)
      · rintro ⟨first, later⟩
        rw [first, later]
        rfl

/-- A text is read back exactly if each of its characters is. -/
theorem readBackText_eq_iff {s : String} : readBackText s = s ↔ ∀ c ∈ s.toList, Faithful c := by
  rw [← flatMap_readBack_iff, ← String.toList_inj, readBackText, String.toList_ofList]

example : readBackText "a\x00\n" = "a0\n" := by decide

theorem readBackText_of_simple {s : String} (simple : ∀ c ∈ s.toList, IsSimple c) :
    readBackText s = s :=
  readBackText_eq_iff.mpr fun c inside => (simple c inside).faithful

theorem readBackText_of_plain {name : String} (plain : isPlainName name) :
    readBackText name = name := by
  obtain ⟨c, cs, whole, start, all⟩ := toList_of_plain plain
  refine readBackText_of_simple ?_
  rw [whole, List.forall_mem_cons]
  exact ⟨isSimple_of_isNameChar (isNameChar_of_isNameStart start),
    fun d inside => isSimple_of_isNameChar (all d inside)⟩

/-- A column name is read back after the colon unless it is a keyword, which no name is. -/
theorem columnName?_text {name : String} {rest : List Char} (free : name ∉ keywords)
    (apart : ∀ c ∈ rest.head?, isNameChar c = false) :
    columnName? ((ColumnIdent.name name).text.toList ++ rest) = some (readBackText name, rest) := by
  by_cases plain : isPlainName name
  · have text : (ColumnIdent.name name).text.toList = ':' :: name.toList := by
      simp [ColumnIdent.text, plain]
    rw [text, List.cons_append, columnName?, name?_append plain free apart, readBackText_of_plain plain]
    rfl
  · have text : (ColumnIdent.name name).text.toList = ':' :: (Text.quote name).toList := by
      simp [ColumnIdent.text, plain]
    have unnamed : name? ((Text.quote name).toList ++ rest) = none := by
      rw [Text.toList_quote]
      exact name?_of_start (by decide)
    rw [text, List.cons_append, columnName?, unnamed, quoted?_quote]
    rfl

theorem columnName?_keyword {name : String} {rest : List Char} (keyword : name ∈ keywords)
    (apart : ∀ c ∈ rest.head?, isNameChar c = false) :
    columnName? ((ColumnIdent.name name).text.toList ++ rest) = none := by
  have plain : isPlainName name := by
    revert name
    decide
  have text : (ColumnIdent.name name).text.toList = ':' :: name.toList := by
    simp [ColumnIdent.text, plain]
  obtain ⟨c, cs, whole, start, -⟩ := toList_of_plain plain
  have unquoted : quoted? (name.toList ++ rest) = none := by
    rw [whole]
    exact quoted?_of_head (by rintro rfl; cases start)
  rw [text, List.cons_append, columnName?, name?_keyword plain keyword apart, unquoted]
  rfl

end TablePlan.Grammar
