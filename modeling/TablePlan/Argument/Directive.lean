import TablePlan.Argument.Error
import TablePlan.Kind

/-!
# Directives

The letters of a directive: `r` evaluates row by row, `c` on whole columns, `m` lets a missing
argument make the result missing, `t` collects assignments into a record. Row and column mode
exclude each other.
-/

namespace TablePlan

/-- The letters of a directive, in any order and number. -/
structure Directives where
  row : Bool := false
  column : Bool := false
  passMissing : Bool := false
  collect : Bool := false
deriving DecidableEq

namespace Directives

/-- No letters. -/
def empty : Directives := {}

/-- The letters of either. -/
def union (a b : Directives) : Directives :=
  ⟨a.row || b.row, a.column || b.column, a.passMissing || b.passMissing, a.collect || b.collect⟩

/-- The directive of one letter. -/
def ofLetter? (c : Char) : Option Directives :=
  match c with
  | 'r' => some { row := true }
  | 'c' => some { column := true }
  | 'm' => some { passMissing := true }
  | 't' => some { collect := true }
  | _ => none

/-- The directives that letters stand for; one that is unknown is reported with `whole`. -/
def ofLetters (whole : String) : List Char → Except ArgumentError Directives
  | [] => .ok empty
  | c :: rest =>
    match ofLetter? c with
    | some d => return d.union (← ofLetters whole rest)
    | none =>
      .error (.malformedDirective whole ("unknown directive `" ++ String.ofList [c] ++ "`"))

/-- The directives that a text of letters stands for. -/
def parse (letters : String) : Except ArgumentError Directives :=
  if letters.isEmpty then .error (.malformedDirective "" "no directive letters")
  else ofLetters letters letters.toList

/-- Whether both modes are asked for. -/
def isConflicting (d : Directives) : Bool :=
  d.row && d.column

/-- The letters in their usual order. -/
def letters (d : Directives) : String :=
  String.ofList
    ((if d.row then ['r'] else []) ++ (if d.column then ['c'] else [])
      ++ (if d.passMissing then ['m'] else []) ++ if d.collect then ['t'] else [])

/-- The mode asked for, or else the given one. -/
def mode (d : Directives) (default : Mode) : Except ArgumentError Mode :=
  match d.row, d.column with
  | true, true => .error (.conflictingDirective d.letters)
  | true, false => .ok .rowWise
  | false, true => .ok .columnWise
  | false, false => .ok default

end Directives

end TablePlan
