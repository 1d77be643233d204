/-!
# Expressions

The expressions that arguments of a transformation call are made of. One type covers every role: a
computation, the target of an assignment, a column reference, a directive around an argument.
-/

namespace TablePlan

/-- An operator between two operands. -/
inductive BinaryOp where
  | add | sub | mul | div | rem | pow
  | eq | ne | lt | le | gt | ge
  | and | or
deriving DecidableEq

/-- An operator before its operand. -/
inductive UnaryOp where
  | neg
  | not
deriving DecidableEq

namespace BinaryOp

/-- All operators between two operands. -/
def all : List BinaryOp := [add, sub, mul, div, rem, pow, eq, ne, lt, le, gt, ge, and, or]

/-- How an operator is written. -/
def symbol : BinaryOp → String
  | add => "+"
  | sub => "-"
  | mul => "*"
  | div => "/"
  | rem => "%"
  | pow => "^"
  | eq => "=="
  | ne => "!="
  | lt => "<"
  | le => "<="
  | gt => ">"
  | ge => ">="
  | and => "&&"
  | or => "||"

end BinaryOp

namespace UnaryOp

/-- How an operator is written. -/
def symbol : UnaryOp → String
  | neg => "-"
  | not => "!"

end UnaryOp

/-- A constant. -/
inductive Literal where
  | missing
  | bool (b : Bool)
  | int (i : Int64)
  | float (x : Float)
  | string (s : String)

namespace Literal

/-- Whether two constants are written alike. -/
def same : Literal → Literal → Bool
  | missing, missing => true
  | bool a, bool b => a == b
  | int a, int b => a == b
  | float a, float b => a == b
  | string a, string b => a == b
  | _, _ => false

end Literal

/-- A column named in the text of an expression. Positions count from one. -/
inductive ColumnIdent where
  | name (name : String)
  | position (index : Int64)
deriving DecidableEq

/-- An expression. `dotted` calls and operators work element by element. -/
inductive Expr where
  | literal (value : Literal)
  | ident (name : String)
  | column (ident : ColumnIdent)
  | interpolated (inner : Expr)
  | call (func : String) (args : List Expr) (dotted : Bool)
  | binary (op : BinaryOp) (left right : Expr) (dotted : Bool)
  | unary (op : UnaryOp) (operand : Expr) (dotted : Bool)
  | index (base : Expr) (indices : List Expr)
  | conditional (cond yes no : Expr)
  | vector (items : List Expr)
  | matrix (rows : List (List Expr))
  | tuple (items : List Expr)
  | splat (name : String)
  | record (fields : List (String × Expr))
  | assign (target value : Expr)
  | directed (letters : String) (inner : Expr)
  | block (statements : List Expr)

namespace Expr

/-- Whether an expression stands for columns of the table. -/
def isReference : Expr → Bool
  | column _ | interpolated _ => true
  | _ => false

mutual

/-- Whether two expressions are written alike, floats compared as numbers. -/
def same : Expr → Expr → Bool
  | literal a, literal b => a.same b
  | ident a, ident b => a == b
  | column a, column b => a == b
  | interpolated a, interpolated b => a.same b
  | call f as d, call g bs e => f == g && sameItems as bs && d == e
  | binary o a b d, binary p x y e => o == p && a.same x && b.same y && d == e
  | unary o a d, unary p x e => o == p && a.same x && d == e
  | index a as, index b bs => a.same b && sameItems as bs
  | conditional a b c, conditional x y z => a.same x && b.same y && c.same z
  | vector as, vector bs => sameItems as bs
  | matrix as, matrix bs => sameRows as bs
  | tuple as, tuple bs => sameItems as bs
  | splat a, splat b => a == b
  | record as, record bs => sameFields as bs
  | assign a b, assign x y => a.same x && b.same y
  | directed l a, directed m b => l == m && a.same b
  | block as, block bs => sameItems as bs
  | _, _ => false

/-- Whether two lists of expressions are written alike. -/
def sameItems : List Expr → List Expr → Bool
  | [], [] => true
  | a :: as, b :: bs => a.same b && sameItems as bs
  | _, _ => false

/-- Whether two matrices are written alike. -/
def sameRows : List (List Expr) → List (List Expr) → Bool
  | [], [] => true
  | a :: as, b :: bs => sameItems a b && sameRows as bs
  | _, _ => false

/-- Whether two lists of fields are written alike. -/
def sameFields : List (String × Expr) → List (String × Expr) → Bool
  | [], [] => true
  | (n, a) :: as, (m, b) :: bs => n == m && a.same b && sameFields as bs
  | _, _ => false

end

instance : BEq Expr := ⟨same⟩

end Expr

end TablePlan
