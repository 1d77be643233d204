import TablePlan.Grid
import TablePlan.Schema
import TablePlan.Text.Pieces

/-!
# Column specifiers

A specifier says which columns of a table are meant: one by name or position, several by a list or
a grid, or those that a test on their name or type selects.
-/

namespace TablePlan

/-- A test on column names. A custom test is told apart from others by its identity alone. -/
inductive NamePredicate where
  | startsWith (part : String)
  | endsWith (part : String)
  | contains (part : String)
  | custom (label : String) (identity : Nat) (test : String → Bool)

namespace NamePredicate

/-- Whether a name passes the test. -/
def accepts : NamePredicate → String → Bool
  | startsWith part, name => Text.beginsWith name part
  | endsWith part, name => Text.endsWith name part
  | contains part, name => Text.includes name part
  | custom _ _ test, name => test name

/-- Whether two tests are the same one. -/
def same : NamePredicate → NamePredicate → Bool
  | startsWith a, startsWith b => a == b
  | endsWith a, endsWith b => a == b
  | contains a, contains b => a == b
  | custom _ a _, custom _ b _ => a == b
  | _, _ => false

end NamePredicate

/-- Which columns of a table are meant. Positions count from one. -/
inductive ColumnSpec where
  | name (name : String)
  | position (index : Int64)
  | collection (items : List ColumnSpec)
  | grid (items : Grid ColumnSpec)
  | predicate (predicate : NamePredicate)
  | range (first last : ColumnSpec)
  | typeFilter (filter : TypeFilter)
  | all
  | not (inner : ColumnSpec)

namespace ColumnSpec

mutual

/-- Whether two specifiers are written alike. -/
def same : ColumnSpec → ColumnSpec → Bool
  | name a, name b => a == b
  | position a, position b => a == b
  | collection a, collection b => sameItems a b
  | grid a, grid b => a.shape == b.shape && sameItems a.elements b.elements
  | predicate a, predicate b => a.same b
  | range a b, range c d => a.same c && b.same d
  | typeFilter a, typeFilter b => a == b
  | all, all => true
  | not a, not b => a.same b
  | _, _ => false

/-- Whether two lists of specifiers are written alike. -/
def sameItems : List ColumnSpec → List ColumnSpec → Bool
  | [], [] => true
  | a :: as, b :: bs => a.same b && sameItems as bs
  | _, _ => false

end

instance : BEq ColumnSpec := ⟨same⟩

end ColumnSpec

end TablePlan
