/-!
# Readers

A reader takes the characters that are left, and returns what it read with the characters after
it or nothing. Choices are ordered: the second is tried where the first began, and only if the
first fails. Repetitions take as much as they can and give nothing back.

Some text is recognized and yet stands for no expression. Such a fault is kept beside the
characters and does not stop the reader, so text that is not recognized is refused first; the
leftmost fault is the one that counts.
-/

namespace TablePlan.Grammar

/-- Why recognized text stands for no expression. -/
inductive Fault where
  | integerOutOfRange (digits : String)
  | unevenRows
deriving DecidableEq

/-- The characters that are left and the first fault found before them. -/
structure Cursor where
  rest : List Char
  fault : Option Fault

/-- A reader of text. -/
abbrev Reader := StateT Cursor Option

namespace Reader

/-- Keep a fault, unless there was one before it. -/
def report (fault : Fault) : Reader Unit :=
  modify fun c => { c with fault := c.fault.getD fault }

/-- What `reader` reads again and again from the cursor, at most `fuel` times. -/
def repeated {α : Type} (reader : Reader α) : Nat → Cursor → List α × Cursor
  | 0, c => ([], c)
  | fuel + 1, c =>
    match reader c with
    | none => ([], c)
    | some (a, c) =>
      let (as, c) := repeated reader fuel c
      (a :: as, c)

/-- Everything that `reader`, which takes at least one character, reads again and again. -/
def many {α : Type} (reader : Reader α) : Reader (List α) := fun c =>
  some (repeated reader c.rest.length c)

/-- One or more. -/
def many1 {α : Type} (reader : Reader α) : Reader (List α) := do
  let first ← reader
  let rest ← many reader
  return first :: rest

/-- Whatever follows, as long as it is not what `reader` reads. -/
def notAhead {α : Type} (reader : Reader α) : Reader Unit := fun c =>
  match reader c with
  | none => some ((), c)
  | some _ => none

end Reader

end TablePlan.Grammar
