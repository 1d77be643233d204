import TablePlan.Grammar.Expression
import TablePlan.Kind

/-!
# Reading calls

A call has a kind and, in parentheses, arguments and options. The three entry points read a whole
text: one argument, a list of arguments with options, or a call.
-/

namespace TablePlan

/-- The arguments of a call with its options, as in `a, b; key = value`. -/
structure Arguments where
  positional : List Expr
  options : List (String × Expr)

/-- A call with the word that names its kind. -/
structure Call where
  kind : String
  arguments : Arguments

/-- Why a text cannot be read. -/
inductive SyntaxError where
  | unrecognized
  | fault (fault : Grammar.Fault)
deriving DecidableEq

/-- The call names no known kind. -/
structure UnknownKind where
  word : String

namespace UnknownKind

/-- The wording of the error. -/
def message (e : UnknownKind) : String :=
  "Unknown transformation kind: @" ++ e.word

/-- The wording where the word stands alone and not in a call. -/
def wordMessage (e : UnknownKind) : String :=
  "Unknown transformation kind: " ++ e.word

end UnknownKind

namespace Grammar.Fault

/-- The wording of the fault. -/
def message : Fault → String
  | integerOutOfRange digits => "Integer out of range: " ++ digits
  | unevenRows => "Matrix rows must have equal length"

end Grammar.Fault

namespace SyntaxError

/-- The wording of the error, as far as it is fixed. -/
def message : SyntaxError → String
  | unrecognized => "Pest error: "
  | fault f => "Syntax error: " ++ f.message

end SyntaxError

namespace Grammar

open Reader

/-- An argument: an expression, an assignment or a directive around one. -/
def argument (inner : Nested) : Reader Expr :=
  inner.directed <|> assignment inner <|> inner.expr

/-- Items between commas, of which one may follow the last item. -/
def commaList {α : Type} (item : Reader α) : Reader (List α) := do
  let items ← commaItems item
  let _ ← optional (sign ",")
  return items

/-- An option with its name. -/
def namedOption (inner : Nested) : Reader (String × Expr) := do
  let name ← token name?
  equals
  let value ← inner.expr
  return (name, value)

/-- Arguments, and after a semicolon options. -/
def arguments (inner : Nested) : Reader Arguments := do
  let positional ← optional (commaList (argument inner))
  let options ← optional do
    sign ";"
    optional (commaList (namedOption inner))
  return ⟨positional.getD [], (options.getD none).getD []⟩

/-- A call with its kind. -/
def wholeCall (inner : Nested) : Reader Call := do
  sign "@"
  let kind ← token kindWord?
  sign "("
  let arguments ← arguments inner
  sign ")"
  return ⟨kind, arguments⟩

/-- Read a whole text. -/
def readAll {α : Type} (reader : Nested → Reader α) (text : String) : Except SyntaxError α :=
  let cs := text.toList
  let whole : Reader α := do
    let a ← reader (nested (cs.length + 1))
    endOfText
    return a
  match whole ⟨cs, none⟩ with
  | none => .error .unrecognized
  | some (a, c) =>
    match c.fault with
    | none => .ok a
    | some f => .error (.fault f)

end Grammar

namespace Expr

/-- Read one argument. -/
def read (text : String) : Except SyntaxError Expr :=
  Grammar.readAll Grammar.argument text

end Expr

namespace Arguments

/-- Read arguments with options. -/
def read (text : String) : Except SyntaxError Arguments :=
  Grammar.readAll Grammar.arguments text

end Arguments

namespace Call

/-- Read a call. -/
def read (text : String) : Except SyntaxError Call :=
  Grammar.readAll Grammar.wholeCall text

/-- The kind that the call names. -/
def kind? (call : Call) : Except UnknownKind Kind :=
  match Kind.ofWord? call.kind with
  | some k => .ok k
  | none => .error ⟨call.kind⟩

end Call

end TablePlan
