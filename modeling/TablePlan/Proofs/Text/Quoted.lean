import TablePlan.Proofs.Text.Decoding
import TablePlan.Text.Quoted

/-!
# Texts between quotes

A quoted text determines the text: every character is written as itself, as a backslash with a
letter of its own, or by its code point in braces.
-/

namespace TablePlan.Text

/-- The letters of escapes, each with its character. -/
def letterEscapes : List (Char × Char) :=
  [('"', '"'), ('\\', '\\'), ('n', '\n'), ('r', '\r'), ('t', '\t'), ('0', '\x00')]

theorem digitChar_injective : ∀ m < 16, ∀ n < 16, Nat.digitChar m = Nat.digitChar n → m = n := by
  decide

/-- Hexadecimal digits determine a number. -/
theorem hexDigits_injective {m n : Nat} (same : Nat.toDigits 16 m = Nat.toDigits 16 n) : m = n := by
  induction m using Nat.strongRecOn generalizing n with
  | ind m ih =>
      rw [Nat.toDigits_eq_if (by decide), Nat.toDigits_eq_if (n := n) (by decide)] at same
      split at same <;> split at same
      · rename_i hm hn
        exact digitChar_injective m hm n hn (List.cons.inj same).1
      · exact absurd (congrArg List.length same) (by simp)
      · exact absurd (congrArg List.length same) (by simp)
      · obtain ⟨high, low⟩ := List.append_inj' same rfl
        have quotients := ih (m / 16) (by omega) high
        have digits := digitChar_injective _ (Nat.mod_lt m (by decide)) _ (Nat.mod_lt n (by decide))
          (List.cons.inj low).1
        omega

/-- What holds of all hexadecimal digits holds of those of a number. -/
theorem of_hexDigits {P : Char → Prop} (each : ∀ d < 16, P (Nat.digitChar d)) (n : Nat) :
    ∀ c ∈ Nat.toDigits 16 n, P c := by
  induction n using Nat.strongRecOn with
  | ind n ih =>
      have last : P (Nat.digitChar (n % 16)) := each _ (Nat.mod_lt n (by decide))
      rw [Nat.toDigits_eq_if (by decide)]
      split
      · rename_i small
        simpa using each n small
      · exact List.forall_mem_append.mpr ⟨ih (n / 16) (by omega), by simpa using last⟩

theorem not_brace_of_hexDigits (n : Nat) : ∀ c ∈ Nat.toDigits 16 n, c ≠ '\x7d' :=
  of_hexDigits (by decide) n

/-- What stands after the backslash of an escape: a letter, or the code point in braces. -/
def EscapeCode (c : Char) (code : List Char) : Prop :=
  (∃ letter, code = [letter] ∧ (letter, c) ∈ letterEscapes)
    ∨ code = 'u' :: '\x7b' :: (Nat.toDigits 16 c.toNat ++ ['\x7d'])

/-- What stands after the backslash of an escape determines the character. -/
theorem EscapeCode.apart {c c' : Char} {r r' : List Char} {code code' : List Char}
    (h : EscapeCode c code) (h' : EscapeCode c' code') (same : code ++ r = code' ++ r') :
    c = c' ∧ r = r' := by
  have letters : ∀ e ∈ letterEscapes, ∀ e' ∈ letterEscapes, e.1 = e'.1 → e.2 = e'.2 := by decide
  have hex : ∀ e ∈ letterEscapes, e.1 ≠ 'u' := by decide
  obtain ⟨letter, rfl, listed⟩ | rfl := h <;> obtain ⟨letter', rfl, listed'⟩ | rfl := h' <;>
  simp only [List.cons_append, List.nil_append, List.append_assoc, List.cons.injEq,
    true_and] at same
  · exact ⟨letters _ listed _ listed' same.1, same.2⟩
  · exact absurd same.1 (hex _ listed)
  · exact absurd same.1.symm (hex _ listed')
  · obtain ⟨digits, rest⟩ := span_determines (not_brace_of_hexDigits _) (not_brace_of_hexDigits _)
      (by simp) (by simp) same
    exact ⟨Char.toNat_inj.mp (hexDigits_injective digits), (List.cons.inj rest).2⟩

/-- How a character can be written between quotes. -/
theorem escaping : Escaping escape EscapeCode where
  plain_or_escaped c := by
    unfold escape
    split
    case h_7 _ quote backslash _ _ _ _ =>
      split
      · exact .inl ⟨rfl, quote, backslash⟩
      · exact .inr ⟨_, rfl, .inr rfl⟩
    all_goals exact .inr ⟨_, rfl, .inl ⟨_, rfl, by decide⟩⟩
  apart := EscapeCode.apart

/-- A quoted text determines the text. -/
theorem quote_determines {s s' : String} {r r' : List Char}
    (same : (quote s).toList ++ r = (quote s').toList ++ r') : s = s' ∧ r = r' := by
  simp only [toList_quote, List.cons_append, List.append_assoc, List.nil_append,
    List.cons.injEq, true_and] at same
  obtain ⟨chars, rest⟩ := escaping.determines same
  exact ⟨String.toList_inj.mp chars, rest⟩

end TablePlan.Text
