import Mathlib.Data.List.Infix
import TablePlan.Proofs.Registry

/-!
# Splitting, joining and replacing

The pieces of a text between the occurrences of a delimiter, with another text between them, are the
text with that other text for every occurrence: splitting and replacing find the same occurrences.
With the delimiter itself between them they are the whole text again, and none of them holds an
occurrence of a delimiter that is not empty.
-/

namespace TablePlan

namespace Text

variable {pattern insert piece cs : List Char} {c : Char} {skip : Nat}

/-! ### Pieces and what stands between them -/

theorem splitFrom_ne_nil (pattern : List Char) (skip : Nat) (cs : List Char) :
    splitFrom pattern skip cs ≠ [] := by
  fun_induction splitFrom pattern skip cs with
  | case1 => simp
  | case2 skip c rest ih => exact ih
  | case3 => simp
  | case4 c rest _ ih =>
      cases pieces : splitFrom pattern 0 rest with
      | nil => exact absurd pieces ih
      | cons piece pieces => simp [consPiece]

theorem intercalate_consPiece (insert : List Char) (c : Char) (pieces : List (List Char)) :
    insert.intercalate (consPiece c pieces) = c :: insert.intercalate pieces := by
  match pieces with
  | [] | [_] => simp [consPiece]
  | _ :: _ :: _ => simp [consPiece, List.intercalate_cons_cons]

/-- Splitting and replacing come to the same occurrences from any place. -/
theorem intercalate_splitFrom (pattern insert : List Char) (skip : Nat) (cs : List Char) :
    insert.intercalate (splitFrom pattern skip cs) = replaceFrom pattern insert skip cs := by
  fun_induction splitFrom pattern skip cs with
  | case1 => simp [replaceFrom]
  | case2 skip c rest ih => rw [replaceFrom, ih]
  | case3 c rest found ih =>
      rw [replaceFrom, if_pos found, List.intercalate_cons_of_ne_nil (splitFrom_ne_nil _ _ _), ih,
        List.nil_append]
  | case4 c rest other ih => rw [replaceFrom, if_neg other, intercalate_consPiece, ih]

theorem intercalate_characters (insert cs : List Char) :
    insert.intercalate ([] :: cs.map (fun c => [c]) ++ [[]])
      = insert ++ cs.flatMap fun c => c :: insert := by
  have after (cs : List Char) : insert.intercalate (cs.map (fun c => [c]) ++ [[]])
      = cs.flatMap fun c => c :: insert := by
    induction cs with
    | nil => simp
    | cons c cs ih =>
        rw [List.map_cons, List.cons_append, List.intercalate_cons_of_ne_nil (by simp), ih]
        simp
  rw [List.cons_append, List.intercalate_cons_of_ne_nil (by simp), after, List.nil_append]

/-- The pieces with a text between them are the text with replacements. -/
theorem intercalate_splitChars (pattern insert cs : List Char) :
    insert.intercalate (splitChars pattern cs) = replaceChars pattern insert cs := by
  unfold splitChars replaceChars
  split
  · exact intercalate_characters insert cs
  · exact intercalate_splitFrom pattern insert 0 cs

/-- A pattern in place of itself leaves what is not passed over. -/
theorem replaceFrom_self (some : pattern ≠ []) (skip : Nat) (cs : List Char) :
    replaceFrom pattern pattern skip cs = cs.drop skip := by
  fun_induction replaceFrom pattern pattern skip cs with
  | case1 => simp
  | case2 skip c rest ih => rw [ih, List.drop_succ_cons]
  | case3 c rest found ih =>
      have whole := List.prefix_append_drop (List.isPrefixOf_iff_prefix.mp found)
      have length : pattern.length = pattern.length - 1 + 1 := by
        have := List.length_pos_iff.mpr some
        omega
      rw [length, List.drop_succ_cons] at whole
      rw [ih, List.drop_zero, ← whole]
  | case4 c rest _ ih => rw [ih, List.drop_zero, List.drop_zero]

theorem replaceChars_self (pattern cs : List Char) : replaceChars pattern pattern cs = cs := by
  unfold replaceChars
  split
  · rename_i empty
    rw [List.isEmpty_iff.mp empty]
    simp
  · rename_i some
    exact replaceFrom_self (fun empty => some (List.isEmpty_iff.mpr empty)) 0 cs

/-! ### No occurrence in a piece -/

theorem prefix_of_head_splitFrom (pattern cs : List Char) :
    ∀ piece ∈ (splitFrom pattern 0 cs).head?, piece <+: cs := by
  cases cs with
  | nil => simp [splitFrom]
  | cons c rest =>
      rw [splitFrom]
      split
      · simp
      · intro piece first
        have later := prefix_of_head_splitFrom pattern rest
        cases pieces : splitFrom pattern 0 rest with
        | nil => exact absurd pieces (splitFrom_ne_nil _ _ _)
        | cons head others =>
            rw [pieces] at first later
            cases first
            exact List.cons_prefix_cons.mpr ⟨rfl, later head rfl⟩

/-- No piece holds an occurrence, wherever splitting begins. -/
theorem not_infix_of_mem_splitFrom (some : pattern ≠ []) (inside : piece ∈ splitFrom pattern skip cs) :
    ¬ pattern <:+: piece := by
  fun_induction splitFrom pattern skip cs generalizing piece with
  | case1 =>
      rw [List.mem_singleton.mp inside]
      exact fun occurs => some (List.infix_nil.mp occurs)
  | case2 skip c rest ih => exact ih inside
  | case3 c rest _ ih =>
      obtain rfl | inside := List.mem_cons.mp inside
      · exact fun occurs => some (List.infix_nil.mp occurs)
      · exact ih inside
  | case4 c rest other ih =>
      have begins := prefix_of_head_splitFrom pattern rest
      cases pieces : splitFrom pattern 0 rest with
      | nil => exact absurd pieces (splitFrom_ne_nil _ _ _)
      | cons head others =>
          rw [pieces] at begins inside ih
          obtain rfl | inside := List.mem_cons.mp inside
          · rw [List.infix_cons_iff, not_or]
            refine ⟨fun here => other (List.isPrefixOf_iff_prefix.mpr ?_), ih List.mem_cons_self⟩
            exact here.trans (List.cons_prefix_cons.mpr ⟨rfl, begins head rfl⟩)
          · exact ih (List.mem_cons_of_mem head inside)

/-! ### Texts -/

theorem toList_joinWith_pieces (insert : String) (pieces : List (List Char)) :
    (joinWith insert (pieces.map String.ofList)).toList = insert.toList.intercalate pieces := by
  match pieces with
  | [] | [_] => simp
  | piece :: next :: pieces =>
      have later := toList_joinWith_pieces insert (next :: pieces)
      rw [List.map_cons] at later
      simp [later, List.intercalate_cons_cons]

theorem joinWith_split (s pattern insert : String) :
    joinWith insert (split s pattern) = replace s pattern insert := by
  rw [← String.toList_inj, split, toList_joinWith_pieces, intercalate_splitChars, replace,
    String.toList_ofList]

theorem replace_self (s pattern : String) : replace s pattern pattern = s := by
  rw [replace, replaceChars_self, String.ofList_toList]

theorem not_infix_of_mem_split {s pattern piece : String} (some : pattern ≠ "")
    (inside : piece ∈ split s pattern) : ¬ pattern.toList <:+: piece.toList := by
  have chars : pattern.toList ≠ [] := fun empty => some (String.toList_inj.mp empty)
  rw [split, splitChars, if_neg (by simpa using some)] at inside
  obtain ⟨cs, own, rfl⟩ := List.mem_map.mp inside
  rw [String.toList_ofList]
  exact not_infix_of_mem_splitFrom chars own

end Text

namespace Builtin

open Value

variable {σ : Type}

/-- What the standard functions give for a name and arguments. -/
def called (version name : String) (args : List Value) (s : σ) : Except RegistryError Value × σ :=
  (Registry.standard version).call name args s

theorem called_split (version s delimiter : String) (state : σ) :
    called version "split" [string s, string delimiter] state
      = (.ok (list ((Text.split s delimiter).map string)), state) := by
  have found : (Registry.standard version : Registry σ).lookup "split"
      [string s, string delimiter].length
      = .ok (PureFunction.toOverload ⟨.scalar "split" (.range 1 2), splitPieces⟩) := rfl
  exact Registry.call_of_pure found state

theorem called_join (version separator : String) (pieces : List String) (state : σ) :
    called version "join" [list (pieces.map string), string separator] state
      = (.ok (string (Text.joinWith separator pieces)), state) := by
  have found : (Registry.standard version : Registry σ).lookup "join"
      [list (pieces.map string), string separator].length
      = .ok (PureFunction.toOverload ⟨.scalar "join" (.range 1 2), joinPieces⟩) := rfl
  have shown : (pieces.map string).map Value.text = pieces := by
    simp [Function.comp_def, Value.text]
  rw [called, Registry.call_of_pure found]
  change (Except.ok (string (Text.joinWith separator ((pieces.map string).map Value.text))), state)
    = _
  rw [shown]

theorem called_replace (version s part insert : String) (state : σ) :
    called version "replace" [string s, string part, string insert] state
      = (.ok (string (Text.replace s part insert)), state) := by
  have found : (Registry.standard version : Registry σ).lookup "replace"
      [string s, string part, string insert].length
      = .ok (PureFunction.toOverload ⟨.scalar "replace" (.exact 3), replacePart⟩) := rfl
  exact Registry.call_of_pure found state

/-- The pieces of a text joined by another text are the text with that other text for every
occurrence of the delimiter, so joined by the delimiter they are the text itself. A delimiter that
is not empty occurs in none of them. -/
theorem joined_pieces (version s delimiter insert : String) (state : σ) :
    ∃ pieces : List String,
      called version "split" [string s, string delimiter] state
        = (.ok (list (pieces.map string)), state)
      ∧ (∃ replaced : String,
        called version "join" [list (pieces.map string), string insert] state
          = (.ok (string replaced), state)
        ∧ called version "replace" [string s, string delimiter, string insert] state
          = (.ok (string replaced), state))
      ∧ called version "join" [list (pieces.map string), string delimiter] state
        = (.ok (string s), state)
      ∧ (delimiter ≠ "" → ∀ piece ∈ pieces, ¬ delimiter.toList <:+: piece.toList) := by
  refine ⟨Text.split s delimiter, called_split version s delimiter state,
    ⟨Text.replace s delimiter insert, ?joined, called_replace version s delimiter insert state⟩,
    ?whole, fun some piece inside => Text.not_infix_of_mem_split some inside⟩
  case joined => rw [called_join, Text.joinWith_split]
  case whole => rw [called_join, Text.joinWith_split, Text.replace_self]

/-- Occurrences that overlap are found from the left. -/
theorem overlapping_delimiter_joined : ∃ pieces : List String,
    called "1" "split" [string "aaaaab", string "aa"] () = (.ok (list (pieces.map string)), ())
    ∧ called "1" "join" [list (pieces.map string), string "-"] () = (.ok (string "--ab"), ())
    ∧ called "1" "join" [list (pieces.map string), string "aa"] () = (.ok (string "aaaaab"), ())
    ∧ ∀ piece ∈ pieces, ¬ "aa".toList <:+: piece.toList := by
  obtain ⟨pieces, split, ⟨replaced, joined, replaces⟩, whole, free⟩ :=
    joined_pieces "1" "aaaaab" "aa" "-" ()
  have found : called "1" "replace" [string "aaaaab", string "aa", string "-"] ()
      = (.ok (string "--ab"), ()) := called_replace "1" "aaaaab" "aa" "-" ()
  rw [replaces] at found
  exact ⟨pieces, split, joined.trans found, whole, free (by decide)⟩

end Builtin

end TablePlan
