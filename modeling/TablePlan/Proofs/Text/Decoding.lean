import Mathlib.Data.List.Forall2
import Mathlib.Data.List.TakeDrop
import TablePlan.Text.Pieces

/-!
# Texts that can be taken apart

A written text determines what was written if nothing else begins with the same characters. What
comes after a text takes part in this: a number, for example, ends where something follows that is
no digit. Texts that are put together from such parts, with separators between them and an end
that can be recognized, can be taken apart again.
-/

namespace TablePlan.Text

/-! ### Spans and codes -/

section

variable {p : Char → Bool} {cs rest : List Char}

theorem takeWhile_stop (all : ∀ c ∈ cs, p c) (stop : ∀ c ∈ rest.head?, p c = false) :
    (cs ++ rest).takeWhile p = cs := by
  rw [List.takeWhile_append_of_pos all]
  cases rest with
  | nil => simp
  | cons c rest => simp [List.takeWhile, stop c rfl]

theorem dropWhile_stop (all : ∀ c ∈ cs, p c) (stop : ∀ c ∈ rest.head?, p c = false) :
    (cs ++ rest).dropWhile p = rest := by
  rw [List.dropWhile_append_of_pos all]
  cases rest with
  | nil => rfl
  | cons c rest => simp [List.dropWhile, stop c rfl]

end

/-- A span of characters of one kind ends where another character follows. -/
theorem span_determines {kind : Char → Prop} {w w' r r' : List Char} (hw : ∀ c ∈ w, kind c)
    (hw' : ∀ c ∈ w', kind c) (hr : ∀ c ∈ r.head?, ¬ kind c) (hr' : ∀ c ∈ r'.head?, ¬ kind c)
    (same : w ++ r = w' ++ r') : w = w' ∧ r = r' := by
  classical
  have spans {w r : List Char} (hw : ∀ c ∈ w, kind c) (hr : ∀ c ∈ r.head?, ¬ kind c) :
      (w ++ r).takeWhile (fun c => decide (kind c)) = w :=
    takeWhile_stop (fun c inside => decide_eq_true (hw c inside))
      fun c first => decide_eq_false (hr c first)
  have words : w = w' := by rw [← spans hw hr, same, spans hw' hr']
  subst words
  exact ⟨rfl, List.append_cancel_left same⟩

/-- A way to write characters between double quotes. A character stands for itself if it is no quote
and no backslash, or it is written as a backslash with a code, and codes can be taken apart. -/
structure Escaping (write : Char → List Char) (Code : Char → List Char → Prop) : Prop where
  plain_or_escaped : ∀ c, (write c = [c] ∧ c ≠ '"' ∧ c ≠ '\\')
    ∨ ∃ code, write c = '\\' :: code ∧ Code c code
  apart : ∀ {c c' code code' r r'}, Code c code → Code c' code' → code ++ r = code' ++ r' →
    c = c' ∧ r = r'

namespace Escaping

variable {write : Char → List Char} {Code : Char → List Char → Prop} {r r' : List Char}

/-- No character is written as the beginning of another one. -/
theorem free (h : Escaping write Code) {c c' : Char} (same : write c ++ r = write c' ++ r') :
    c = c' ∧ r = r' := by
  obtain ⟨plain, -, other⟩ | ⟨code, escaped, kind⟩ := h.plain_or_escaped c <;>
  obtain ⟨plain', -, other'⟩ | ⟨code', escaped', kind'⟩ := h.plain_or_escaped c'
  · rw [plain, plain'] at same
    exact List.cons.inj same
  · rw [plain, escaped'] at same
    exact absurd (List.cons.inj same).1 other
  · rw [escaped, plain'] at same
    exact absurd (List.cons.inj same).1.symm other'
  · rw [escaped, escaped'] at same
    exact h.apart kind kind' (List.cons.inj same).2

theorem unclosed (h : Escaping write Code) {c : Char} : write c ++ r ≠ '"' :: r' := by
  obtain ⟨plain, other, -⟩ | ⟨code, escaped, -⟩ := h.plain_or_escaped c
  · rw [plain]
    exact fun same => other (List.cons.inj same).1
  · rw [escaped]
    exact fun same => absurd (List.cons.inj same).1 (by decide)

/-- What is written up to the closing quote determines the characters between the quotes. -/
theorem determines (h : Escaping write Code) {cs cs' : List Char}
    (same : cs.flatMap write ++ '"' :: r = cs'.flatMap write ++ '"' :: r') : cs = cs' ∧ r = r' := by
  induction cs generalizing cs' with
  | nil =>
      cases cs' with
      | nil => exact ⟨rfl, (List.cons.inj same).2⟩
      | cons c' cs' =>
          rw [List.flatMap_cons, List.append_assoc] at same
          exact absurd same.symm h.unclosed
  | cons c cs ih =>
      rw [List.flatMap_cons, List.append_assoc] at same
      cases cs' with
      | nil => exact absurd same h.unclosed
      | cons c' cs' =>
          rw [List.flatMap_cons, List.append_assoc] at same
          obtain ⟨rfl, later⟩ := h.free same
          obtain ⟨rfl, rest⟩ := ih later
          exact ⟨rfl, rest⟩

end Escaping

/-! ### Bytes -/

/-- The bytes of an array are those that it is made of. -/
theorem toList_bytes (bytes : ByteArray) : bytes.toList = bytes.data.toList := by
  have from_place (n i : Nat) (read : List UInt8) (left : bytes.size - i = n) :
      ByteArray.toList.loop bytes i read = read.reverse ++ bytes.data.toList.drop i := by
    induction n generalizing i read with
    | zero =>
        have past : bytes.data.toList.length ≤ i := by
          rw [Array.length_toList, ByteArray.size_data]
          omega
        rw [ByteArray.toList.loop, if_neg (by omega), List.drop_of_length_le past, List.append_nil]
    | succ n ih =>
        have inside : i < bytes.data.toList.length := by
          rw [Array.length_toList, ByteArray.size_data]
          omega
        have here : bytes.get! i = bytes.data.toList[i] := by
          cases bytes
          exact getElem!_pos _ i (by simpa using inside)
        rw [ByteArray.toList.loop, if_pos (by omega), ih (i + 1) _ (by omega), here,
          List.drop_eq_getElem_cons inside, List.reverse_cons, List.append_assoc,
          List.singleton_append]
  rw [ByteArray.toList, from_place _ 0 [] rfl, List.reverse_nil, List.nil_append, List.drop_zero]

/-- The bytes of a text determine it. -/
theorem eq_of_bytes {s s' : String} (same : s.toUTF8.toList = s'.toUTF8.toList) : s = s' := by
  rw [toList_bytes, toList_bytes, Array.toList_inj, ← ByteArray.ext_iff,
    String.toUTF8_eq_toByteArray, String.toUTF8_eq_toByteArray] at same
  exact String.toByteArray_inj.mp same

/-! ### Texts of several parts -/

section

variable {α : Type} {write : α → String} {among : α → Prop} {stop : List Char → Prop}
  {alike : α → α → Prop}

/-- Among the things in question, only those like `a` have a text that begins where the text of
`a` does. The text ends before characters that satisfy `stop`. -/
def Determines (write : α → String) (among : α → Prop) (stop : List Char → Prop)
    (alike : α → α → Prop) (a : α) : Prop :=
  ∀ ⦃b r r'⦄, among b → stop r → stop r' → (write a).toList ++ r = (write b).toList ++ r' →
    alike a b ∧ r = r'

variable {separator : String} {closes : List Char → Prop}

/-- What is needed of a separator and of the end of a list of texts: both end a text, and they are
told apart from each other and from a text. -/
structure Separates (write : α → String) (among : α → Prop) (stop : List Char → Prop)
    (separator : String) (closes : List Char → Prop) : Prop where
  stops : ∀ r, stop (separator.toList ++ r)
  ends : ∀ r, closes r → stop r
  apart : ∀ r, ¬ closes (separator.toList ++ r)
  unclosed : ∀ a, among a → ∀ r, ¬ closes ((write a).toList ++ r)

namespace Separates

/-- Texts that each have a separator before them. -/
def led (separator : String) (write : α → String) (as : List α) : List Char :=
  as.flatMap fun a => separator.toList ++ (write a).toList

variable {as bs : List α} {r r' : List Char}

theorem stop_led (h : Separates write among stop separator closes) (closed : closes r) :
    stop (led separator write as ++ r) := by
  cases as with
  | nil => exact h.ends r closed
  | cons a as =>
      simp only [led, List.flatMap_cons, List.append_assoc]
      exact h.stops _

theorem led_determines (h : Separates write among stop separator closes)
    (each : ∀ a ∈ as, Determines write among stop alike a) (others : ∀ b ∈ bs, among b)
    (closed : closes r) (closed' : closes r')
    (same : led separator write as ++ r = led separator write bs ++ r') :
    List.Forall₂ alike as bs ∧ r = r' := by
  induction as generalizing bs with
  | nil =>
      cases bs with
      | nil => exact ⟨.nil, same⟩
      | cons b bs =>
          simp only [led, List.flatMap_nil, List.flatMap_cons, List.append_assoc,
            List.nil_append] at same
          exact absurd (same ▸ closed) (h.apart _)
  | cons a as ih =>
      cases bs with
      | nil =>
          simp only [led, List.flatMap_nil, List.flatMap_cons, List.append_assoc,
            List.nil_append] at same
          exact absurd (same ▸ closed') (h.apart _)
      | cons b bs =>
          rw [List.forall_mem_cons] at each others
          have first : (write a).toList ++ (led separator write as ++ r)
              = (write b).toList ++ (led separator write bs ++ r') := by
            simpa [led] using same
          obtain ⟨one, same⟩ := each.1 others.1 (h.stop_led closed) (h.stop_led closed') first
          obtain ⟨later, rest⟩ := ih each.2 others.2 same
          exact ⟨.cons one later, rest⟩

/-- Texts with separators between them, up to what closes them, determine what was written. -/
theorem joined_determines (h : Separates write among stop separator closes)
    (each : ∀ a ∈ as, among a ∧ Determines write among stop alike a) (others : ∀ b ∈ bs, among b)
    (closed : closes r) (closed' : closes r')
    (same : (joinWith separator (as.map write)).toList ++ r
      = (joinWith separator (bs.map write)).toList ++ r') :
    List.Forall₂ alike as bs ∧ r = r' := by
  have written (c : α) (cs : List α) (r : List Char) :
      (joinWith separator ((c :: cs).map write)).toList ++ r
        = (write c).toList ++ (led separator write cs ++ r) := by
    rw [List.map_cons, toList_joinWith, List.flatMap_map, List.append_assoc]
    rfl
  cases as with
  | nil =>
      cases bs with
      | nil => exact ⟨.nil, by simpa using same⟩
      | cons b bs =>
          rw [written] at same
          have begins : r = (write b).toList ++ (led separator write bs ++ r') := by
            simpa using same
          exact absurd (begins ▸ closed) (h.unclosed b (others b List.mem_cons_self) _)
  | cons a as =>
      rw [List.forall_mem_cons] at each
      cases bs with
      | nil =>
          rw [written] at same
          have begins : (write a).toList ++ (led separator write as ++ r) = r' := by
            simpa using same
          exact absurd (begins ▸ closed') (h.unclosed a each.1.1 _)
      | cons b bs =>
          rw [written, written] at same
          rw [List.forall_mem_cons] at others
          obtain ⟨one, same⟩ := each.1.2 others.1 (h.stop_led closed) (h.stop_led closed') same
          obtain ⟨later, rest⟩ := h.led_determines (fun c inside => (each.2 c inside).2) others.2
            closed closed' same
          exact ⟨.cons one later, rest⟩

end Separates

end

end TablePlan.Text
