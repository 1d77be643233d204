import TablePlan.Expr.Basic
import TablePlan.Decimal.Layout
import TablePlan.Text.Pieces
import TablePlan.Text.Quoted

/-!
# The text of expressions

Every operation between two operands is in parentheses, so the text shows how an expression is
grouped. Texts are quoted, and so is a column name that is not a plain word.
-/

namespace TablePlan

/-- Whether a character can begin a name. -/
def isNameStart (c : Char) : Bool :=
  c.isAlpha || c == '_'

theorem isDigit_of_isNameStart {c : Char} (start : isNameStart c) : c.isDigit = false := by
  by_cases underscore : c = '_'
  · subst underscore
    rfl
  · unfold isNameStart Char.isAlpha Char.isUpper Char.isLower at start
    unfold Char.isDigit
    grind

/-- Whether a character can continue a name. -/
def isNameChar (c : Char) : Bool :=
  c.isAlphanum || c == '_'

/-- Whether a column name is a plain word, which needs no quotes. -/
def isPlainName (s : String) : Bool :=
  match s.toList with
  | [] => false
  | c :: rest => isNameStart c && rest.all isNameChar

namespace ColumnIdent

/-- A column as it is written. -/
def text : ColumnIdent → String
  | name n => if isPlainName n then ":" ++ n else ":" ++ Text.quote n
  | position i => "$" ++ toString i

end ColumnIdent

namespace Literal

/-- A constant as it is written. -/
def text : Literal → String
  | missing => "missing"
  | bool b => toString b
  | int i => toString i
  | float x => Decimal.literalLayout.text x
  | string s => Text.quote s

end Literal

namespace Expr

/-- The dot before an operation that works element by element. -/
def dotText (dotted : Bool) : String :=
  if dotted then "." else ""

/-- Whether an interpolated expression is written without parentheses around it. -/
def interpolatesBare : Expr → Bool
  | ident _ | vector _ | matrix _ => true
  | _ => false

mutual

/-- An expression as it is written. -/
def text : Expr → String
  | literal value => value.text
  | ident name => name
  | column c => c.text
  | interpolated inner =>
    if inner.interpolatesBare then "$" ++ inner.text else "$(" ++ inner.text ++ ")"
  | call func args dotted =>
    func ++ dotText dotted ++ "(" ++ Text.joinWith ", " (itemTexts args) ++ ")"
  | binary op left right dotted =>
    "(" ++ left.text ++ " " ++ dotText dotted ++ op.symbol ++ " " ++ right.text ++ ")"
  | unary op operand dotted => dotText dotted ++ op.symbol ++ operand.text
  | index base indices => base.text ++ "[" ++ Text.joinWith ", " (itemTexts indices) ++ "]"
  | conditional cond yes no => "(" ++ cond.text ++ " ? " ++ yes.text ++ " : " ++ no.text ++ ")"
  | vector items => "[" ++ Text.joinWith ", " (itemTexts items) ++ "]"
  | matrix rows => "[" ++ Text.joinWith "; " (rowTexts rows) ++ "]"
  | tuple items => Text.joinWith ", " (itemTexts items)
  | splat name => name ++ "..."
  | record fields => "(; " ++ Text.joinWith ", " (fieldTexts fields) ++ ")"
  | assign target value => target.text ++ " = " ++ value.text
  | directed letters inner => "@" ++ letters ++ " " ++ inner.text
  | block statements => "begin " ++ Text.joinWith "; " (itemTexts statements) ++ " end"

/-- The texts of several expressions. -/
def itemTexts : List Expr → List String
  | [] => []
  | item :: rest => item.text :: itemTexts rest

/-- The texts of the rows of a matrix. -/
def rowTexts : List (List Expr) → List String
  | [] => []
  | row :: rest => Text.joinWith " " (itemTexts row) :: rowTexts rest

/-- The texts of the fields of a record. -/
def fieldTexts : List (String × Expr) → List String
  | [] => []
  | (name, value) :: rest => (name ++ " = " ++ value.text) :: fieldTexts rest

end

theorem itemTexts_eq (items : List Expr) : itemTexts items = items.map text := by
  induction items with
  | nil => rfl
  | cons item rest ih => rw [itemTexts, ih, List.map_cons]

/-- A prefix operator is written right before its operand. -/
theorem toList_text_unary (op : UnaryOp) (operand : Expr) (dotted : Bool) :
    (unary op operand dotted).text.toList
      = (dotText dotted ++ op.symbol).toList ++ operand.text.toList := by
  simp [text]

end Expr

end TablePlan
