import Mathlib.Tactic.IntervalCases
import Std.Data.String.ToInt
import TablePlan.Json.Reader
import TablePlan.Json.Writer
import TablePlan.Proofs.Decimal.Spelling
import TablePlan.Proofs.Text.Decoding

/-!
# Documents with the same text

The text of a document determines it, up to numbers that are written alike. An escape is undone by
the reader of documents, a scalar has none of the characters that arrays and objects are made of,
and so the text of a document can be taken apart from the left.
-/

namespace TablePlan.Json

/-! ### Strings -/

/-- A character is written as itself, or as an escape that is read back as that character. -/
theorem escaping : Text.Escaping escape fun c code =>
    ∀ rest, escaped? (code ++ rest) = some (c, rest) where
  plain_or_escaped c := by
    unfold escape
    split
    case h_8 _ quote backslash _ _ _ _ _ =>
      split
      · rename_i control
        refine .inr ⟨['u', '0', '0'] ++ hexPair c.toNat, rfl, fun rest => ?_⟩
        have digits : ∀ n < 32, unicodeEscape? (['0', '0'] ++ hexPair n ++ rest)
            = some (Char.ofNat n, rest) := by
          intro n below
          interval_cases n <;> rfl
        have read := digits c.toNat control
        rwa [Char.ofNat_toNat] at read
      · exact .inl ⟨rfl, quote, backslash⟩
    all_goals exact .inr ⟨_, rfl, fun rest => rfl⟩
  apart {_ _ _ _ r r'} read read' same := by
    have first := read r
    rw [same, read' r'] at first
    cases first
    exact ⟨rfl, rfl⟩

theorem toList_stringText (s : String) :
    (stringText s).toList = '"' :: (s.toList.flatMap escape ++ ['"']) := by
  simp [stringText]

/-- The text of a string determines it. -/
theorem stringText_determines {s s' : String} {r r' : List Char}
    (same : (stringText s).toList ++ r = (stringText s').toList ++ r') : s = s' ∧ r = r' := by
  simp only [toList_stringText, List.cons_append, List.append_assoc, List.nil_append,
    List.cons.injEq, true_and] at same
  obtain ⟨chars, rest⟩ := escaping.determines same
  exact ⟨String.toList_inj.mp chars, rest⟩

/-! ### Scalars -/

/-- A document without quotes and brackets. -/
def IsScalar : Json → Prop
  | string _ | array _ | object _ => False
  | _ => True

/-- A scalar is written with characters of words and numbers. -/
theorem text_of_scalar {j : Json} (h : j.IsScalar) :
    j.text.toList ≠ [] ∧ ∀ c ∈ j.text.toList, Decimal.IsNumberChar c := by
  cases j with
  | null => decide
  | bool b => cases b <;> decide
  | int i =>
      rw [text]
      change i.repr.toList ≠ [] ∧ ∀ c ∈ i.repr.toList, Decimal.IsNumberChar c
      cases i with
      | ofNat n =>
          rw [Int.repr]
          simpa using Decimal.isNumberChar_of_toDigits n
      | negSucc n =>
          rw [Int.repr, String.toList_append, Nat.toList_repr]
          exact ⟨by simp, List.forall_mem_cons.mpr
            ⟨by decide, Decimal.isNumberChar_of_toDigits _⟩⟩
  | float x =>
      rw [text, floatText]
      split
      · exact ⟨Decimal.Layout.text_ne_nil _ x, Decimal.Layout.isNumberChar_text _ x⟩
      · decide
  | _ => exact h.elim

/-! ### Documents -/

/-- The parts of a document come before it. -/
theorem inside_out {P : Json → Prop} (null : P .null) (bool : ∀ b, P (.bool b))
    (int : ∀ i, P (.int i)) (float : ∀ x, P (.float x)) (string : ∀ s, P (.string s))
    (array : ∀ items : List Json, (∀ item ∈ items, P item) → P (.array items))
    (object : ∀ members : List (String × Json), (∀ m ∈ members, P m.2) → P (.object members))
    (j : Json) : P j := by
  refine @Json.rec P (fun items => ∀ item ∈ items, P item) (fun members => ∀ m ∈ members, P m.2)
    (fun m => P m.2) null bool int float string array object ?noItem ?items ?noMember ?members
    (fun _ _ h => h) j
  case noItem | noMember => simp
  case items | members => exact fun _ _ first later => List.forall_mem_cons.mpr ⟨first, later⟩

/-- Documents that differ in numbers that are written alike at most. -/
inductive Alike : Json → Json → Prop
  | scalar {j j' : Json} (h : j.IsScalar) (h' : j'.IsScalar) (same : j.text = j'.text) : Alike j j'
  | string (s : String) : Alike (.string s) (.string s)
  | array {items items' : List Json} (parts : List.Forall₂ Alike items items') :
      Alike (.array items) (.array items')
  | object {members members' : List (String × Json)}
      (names : members.map Prod.fst = members'.map Prod.fst)
      (parts : List.Forall₂ Alike (members.map Prod.snd) (members'.map Prod.snd)) :
      Alike (.object members) (.object members')

namespace Alike

theorem eq_of_string {s s' : String} (h : Alike (.string s) (.string s')) : s = s' := by
  cases h with
  | scalar h => exact h.elim
  | string => rfl

theorem eq_of_int {i i' : Int} (h : Alike (.int i) (.int i')) : i = i' := by
  cases h with
  | scalar _ _ same => exact Int.repr_inj.mp same

theorem eq_of_bool {b b' : Bool} (h : Alike (.bool b) (.bool b')) : b = b' := by
  cases h with
  | scalar _ _ same => cases b <;> cases b' <;> first | rfl | exact absurd same (by decide)

theorem items {items items' : List Json} (h : Alike (.array items) (.array items')) :
    List.Forall₂ Alike items items' := by
  cases h with
  | scalar h => exact h.elim
  | array parts => exact parts

theorem members {members members' : List (String × Json)}
    (h : Alike (.object members) (.object members')) :
    members.map Prod.fst = members'.map Prod.fst
      ∧ List.Forall₂ Alike (members.map Prod.snd) (members'.map Prod.snd) := by
  cases h with
  | scalar h => exact h.elim
  | object names parts => exact ⟨names, parts⟩

/-- Arrays of documents that determine what they are made from. -/
theorem eq_of_array {α : Type} {f : α → Json} (determined : ∀ a b, Alike (f a) (f b) → a = b)
    {as bs : List α} (h : Alike (.array (as.map f)) (.array (bs.map f))) : as = bs := by
  have parts := List.forall₂_map_left_iff.mp (List.forall₂_map_right_iff.mp h.items)
  have same : List.Forall₂ Eq as bs := parts.imp determined
  rwa [List.forall₂_eq_eq_eq] at same

end Alike

/-- What can follow a document inside another one, or nothing. -/
def Ends (rest : List Char) : Prop :=
  ∀ c ∈ rest.head?, c ∈ [',', ']', '\x7d']

theorem Ends.not_number {rest : List Char} (h : Ends rest) :
    ∀ c ∈ rest.head?, ¬ Decimal.IsNumberChar c := by
  intro c first
  have marks : ∀ c ∈ [',', ']', '\x7d'], ¬ Decimal.IsNumberChar c := by decide
  exact marks c (h c first)

/-- No other document has a text that begins with the text of this one and ends there. -/
def Determined (j : Json) : Prop :=
  Text.Determines text (fun _ => True) Ends Alike j

theorem itemTexts_eq (items : List Json) : itemTexts items = items.map text := by
  induction items with
  | nil => rfl
  | cons item rest ih => rw [itemTexts, ih, List.map_cons]

/-- The text of a member of an object. -/
def memberText (m : String × Json) : String :=
  stringText m.1 ++ ":" ++ m.2.text

theorem memberTexts_eq (members : List (String × Json)) :
    memberTexts members = members.map memberText := by
  induction members with
  | nil => rfl
  | cons m rest ih =>
      obtain ⟨name, value⟩ := m
      rw [memberTexts, ih, List.map_cons, memberText]

/-- The characters that the text of a document can begin with. They tell strings, arrays and
objects apart, and from scalars. -/
def Begins : Json → Char → Prop
  | string _, c => c = '"'
  | array _, c => c = '['
  | object _, c => c = '\x7b'
  | _, c => Decimal.IsNumberChar c

theorem begins_text (j : Json) : ∃ c t, j.text.toList = c :: t ∧ j.Begins c := by
  by_cases h : j.IsScalar
  · obtain ⟨some, each⟩ := text_of_scalar h
    obtain ⟨c, t, whole⟩ := List.exists_cons_of_ne_nil some
    refine ⟨c, t, whole, ?_⟩
    have first := each c (by simp [whole])
    cases j <;> first | exact first | exact h.elim
  · cases j with
    | string s => exact ⟨_, _, by rw [text, toList_stringText], rfl⟩
    | array items =>
        exact ⟨_, _, by rw [text, String.toList_append, String.toList_append]; rfl, rfl⟩
    | object members =>
        exact ⟨_, _, by rw [text, String.toList_append, String.toList_append]; rfl, rfl⟩
    | _ => exact absurd trivial h

namespace Begins

variable {j : Json} {c : Char}

theorem string (h : j.Begins '"') : ∃ s, j = .string s := by
  cases j with
  | string s => exact ⟨s, rfl⟩
  | array _ | object _ => cases h
  | _ => exact absurd (show Decimal.IsNumberChar '"' from h) (by decide)

theorem array (h : j.Begins '[') : ∃ items, j = .array items := by
  cases j with
  | array items => exact ⟨items, rfl⟩
  | string _ | object _ => cases h
  | _ => exact absurd (show Decimal.IsNumberChar '[' from h) (by decide)

theorem object (h : j.Begins '\x7b') : ∃ members, j = .object members := by
  cases j with
  | object members => exact ⟨members, rfl⟩
  | string _ | array _ => cases h
  | _ => exact absurd (show Decimal.IsNumberChar '\x7b' from h) (by decide)

theorem scalar (h : j.Begins c) (number : Decimal.IsNumberChar c) : j.IsScalar := by
  cases j with
  | string _ | array _ | object _ =>
      subst h
      exact absurd number (by decide)
  | _ => trivial

/-- No document begins with a bracket that closes. -/
theorem not_closing (h : j.Begins c) : c ∉ [']', '\x7d'] := by
  have marks : ∀ c ∈ [']', '\x7d'], ¬ Decimal.IsNumberChar c := by decide
  cases j with
  | string _ | array _ | object _ =>
      subst h
      decide
  | _ => exact fun closing => marks c closing h

end Begins

/-- The first character of a text at the left of what is written after it. -/
theorem begins_of_same {j j' : Json} {r r' : List Char} {c : Char} {t : List Char}
    (whole : j.text.toList = c :: t) (same : j.text.toList ++ r = j'.text.toList ++ r') :
    j'.Begins c := by
  obtain ⟨c', t', whole', begins⟩ := begins_text j'
  rw [whole, whole'] at same
  rw [(List.cons.inj same).1]
  exact begins

theorem determined_scalar {j : Json} (h : j.IsScalar) : Determined j := by
  intro j' r r' _ after after' same
  obtain ⟨some, each⟩ := text_of_scalar h
  obtain ⟨c, t, whole⟩ := List.exists_cons_of_ne_nil some
  have h' := (begins_of_same whole same).scalar (each c (by simp [whole]))
  obtain ⟨texts, rest⟩ := Text.span_determines each (text_of_scalar h').2 after.not_number
    after'.not_number same
  exact ⟨.scalar h h' (String.toList_inj.mp texts), rest⟩

theorem determined_string (s : String) : Determined (.string s) := by
  intro j' r r' _ _ _ same
  have whole : (Json.string s).text.toList = '"' :: (s.toList.flatMap escape ++ ['"']) := by
    rw [text, toList_stringText]
  obtain ⟨s', rfl⟩ := (begins_of_same whole same).string
  rw [text, text] at same
  obtain ⟨rfl, rest⟩ := stringText_determines same
  exact ⟨.string s, rest⟩

theorem separates_items : Text.Separates text (fun _ => True) Ends ","
    (fun r => ∃ t, r = ']' :: t) where
  stops r := by
    rintro c ⟨⟩
    decide
  ends := by
    rintro _ ⟨t, rfl⟩ c ⟨⟩
    decide
  apart := by
    rintro r ⟨t, same⟩
    cases same
  unclosed := by
    rintro j - r ⟨t, same⟩
    obtain ⟨c, t', whole, begins⟩ := begins_text j
    rw [whole] at same
    exact begins.not_closing (by simp [(List.cons.inj same).1])

theorem separates_members : Text.Separates memberText (fun _ => True) Ends ","
    (fun r => ∃ t, r = '\x7d' :: t) where
  stops r := by
    rintro c ⟨⟩
    decide
  ends := by
    rintro _ ⟨t, rfl⟩ c ⟨⟩
    decide
  apart := by
    rintro r ⟨t, same⟩
    cases same
  unclosed := by
    rintro m - r ⟨t, same⟩
    simp [memberText, toList_stringText] at same

theorem determined_array {items : List Json} (each : ∀ item ∈ items, Determined item) :
    Determined (.array items) := by
  have written (items : List Json) (r : List Char) : (Json.array items).text.toList ++ r
      = '[' :: ((Text.joinWith "," (items.map text)).toList ++ ']' :: r) := by
    simp [text, itemTexts_eq]
  intro j' r r' _ _ _ same
  have begins := begins_of_same (by simpa using written items []) same
  obtain ⟨items', rfl⟩ := begins.array
  rw [written, written, List.cons.injEq] at same
  obtain ⟨parts, rest⟩ := separates_items.joined_determines
    (fun item own => ⟨trivial, each item own⟩) (fun _ _ => trivial) ⟨r, rfl⟩ ⟨r', rfl⟩ same.2
  exact ⟨.array parts, (List.cons.inj rest).2⟩

theorem determined_object {members : List (String × Json)}
    (each : ∀ m ∈ members, Determined m.2) : Determined (.object members) := by
  have member (m : String × Json) (own : m ∈ members) : Text.Determines memberText (fun _ => True)
      Ends (fun m m' => m.1 = m'.1 ∧ Alike m.2 m'.2) m := by
    intro m' r r' _ after after' same
    simp only [memberText, String.toList_append, List.append_assoc] at same
    obtain ⟨names, later⟩ := stringText_determines same
    obtain ⟨values, rest⟩ := each m own trivial after after' (List.append_cancel_left later)
    exact ⟨⟨names, values⟩, rest⟩
  have written (members : List (String × Json)) (r : List Char) :
      (Json.object members).text.toList ++ r
        = '\x7b' :: ((Text.joinWith "," (members.map memberText)).toList ++ '\x7d' :: r) := by
    simp [text, memberTexts_eq]
  intro j' r r' _ _ _ same
  have begins := begins_of_same (by simpa using written members []) same
  obtain ⟨members', rfl⟩ := begins.object
  rw [written, written, List.cons.injEq] at same
  obtain ⟨parts, rest⟩ := separates_members.joined_determines
    (fun m own => ⟨trivial, member m own⟩) (fun _ _ => trivial) ⟨r, rfl⟩ ⟨r', rfl⟩ same.2
  have names : List.Forall₂ Eq (members.map Prod.fst) (members'.map Prod.fst) :=
    List.forall₂_map_left_iff.mpr (List.forall₂_map_right_iff.mpr (parts.imp fun _ _ h => h.1))
  have values : List.Forall₂ Alike (members.map Prod.snd) (members'.map Prod.snd) :=
    List.forall₂_map_left_iff.mpr (List.forall₂_map_right_iff.mpr (parts.imp fun _ _ h => h.2))
  exact ⟨.object (List.forall₂_eq_eq_eq ▸ names) values, (List.cons.inj rest).2⟩

/-- The text of a document determines it wherever it ends. -/
theorem determined (j : Json) : Determined j := by
  induction j using inside_out with
  | null => exact determined_scalar trivial
  | bool | int | float => exact determined_scalar trivial
  | string s => exact determined_string s
  | array items ih => exact determined_array ih
  | object members ih => exact determined_object ih

/-- Documents with the same text differ in numbers that are written alike at most. -/
theorem alike_of_text {j j' : Json} (same : j.text = j'.text) : Alike j j' := by
  have ends : Ends [] := nofun
  exact (determined j trivial ends ends (by rw [same])).1

end TablePlan.Json
