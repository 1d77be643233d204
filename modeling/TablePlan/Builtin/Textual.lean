import TablePlan.Registry.Argument
import TablePlan.Text.Blank
import TablePlan.Text.Case
import TablePlan.Value.Printer

/-!
# Functions of texts
-/

namespace TablePlan.Builtin

open Value

/-- A function from a text to a text. -/
def textual (name : String) (f : String → String) : PureFunction :=
  .unary name fun v => return string (f (← v.expectString))

/-- A test of a text against another one. -/
def textTest (name : String) (test : String → String → Bool) : PureFunction :=
  .binary name fun v part => return bool (test (← v.expectString) (← part.expectString))

/-- The pieces of a text between the occurrences of a separator, or its words. -/
def splitPieces : List Value → Except FunctionError Value
  | [v] => return list ((Text.words (← v.expectString)).map string)
  | [v, separator] =>
    return list ((Text.split (← v.expectString) (← separator.expectString)).map string)
  | args => .error (.argumentCount args.length)

/-- The texts of the elements of a collection one after another. -/
def joinPieces : List Value → Except FunctionError Value
  | [v] => return string (String.join ((← v.expectElements).map Value.text))
  | [v, separator] => do
    let separator ← separator.expectString
    return string (Text.joinWith separator ((← v.expectElements).map Value.text))
  | args => .error (.argumentCount args.length)

/-- The number of characters, fields or elements. -/
def length : Value → Except FunctionError Value
  | string s => .ok (int (Int64.ofNat s.length))
  | record fields => .ok (int (Int64.ofNat fields.length))
  | other => return int (Int64.ofNat (← other.expectElements).length)

/-- A text with one part in place of another. -/
def replacePart : List Value → Except FunctionError Value
  | [v, part, insert] =>
    return string (Text.replace (← v.expectString) (← part.expectString) (← insert.expectString))
  | args => .error (.argumentCount args.length)

/-- The functions of texts. -/
def texts : List PureFunction := [
  textual "uppercase" Text.upper,
  textual "lowercase" Text.lower,
  textual "uppercasefirst" Text.upperFirst,
  textual "strip" Text.strip,
  ⟨.scalar "split" (.range 1 2), splitPieces⟩,
  ⟨.scalar "join" (.range 1 2), joinPieces⟩,
  .unary "length" length,
  ⟨.scalar "replace" (.exact 3), replacePart⟩,
  textTest "startswith" Text.beginsWith,
  textTest "endswith" Text.endsWith,
  textTest "contains" Text.includes]

end TablePlan.Builtin
