import TablePlan.Argument.Collected
import TablePlan.Proofs.Expr.Plain
import TablePlan.Proofs.Grammar.Lexemes

/-!
# Well-formed expressions

What the notation can express is less than what expressions can: no record is written, and several
targets stand together only on the left of an assignment. Names that are written are no names that
planning makes, so parameters and the locals of collected fields capture nothing.
-/

namespace TablePlan

open Grammar (IsName)

/-- A name that planning does not make up for a parameter or for a collected field. -/
structure IsFresh (name : String) : Prop where
  param : ∀ number, name ≠ Binding.paramName number
  field : ∀ field, name ≠ Collected.fieldLocal field

/-- Every name that is made up begins with a percent sign, and none that is written does. -/
theorem Grammar.IsName.isFresh {name : String} (h : IsName name) : IsFresh name := by
  obtain ⟨c, cs, whole, start, -⟩ := toList_of_plain h.plain
  have unmarked (suffix : String) (made : name.toList = '%' :: suffix.toList) : False := by
    have first : c = '%' := by simpa [whole] using congrArg List.head? made
    rw [first] at start
    exact absurd start (by decide)
  constructor
  · rintro number rfl
    exact unmarked ("col" ++ toString number) (by simp [Binding.paramName])
  · rintro field rfl
    exact unmarked ("t:" ++ field) (by simp [Collected.fieldLocal])

namespace Literal

/-- A constant as it can be written: numbers have no sign, and floats are numbers. -/
def WellFormed : Literal → Prop
  | int i => 0 ≤ i
  | float x => Decimal.Positive x ∧ x.isNaN = false
  | _ => True

end Literal

namespace Expr

/-- An expression as it can be written. There is no rule for a record, for a tuple that is not
assigned to, or for a splat that is not in such a tuple. -/
inductive WellFormed : Expr → Prop
  | literal {value : Literal} (h : value.WellFormed) : WellFormed (literal value)
  | ident {name : String} (h : IsName name) : WellFormed (ident name)
  | named (name : String) : WellFormed (column (.name name))
  | position {i : Int64} (h : 0 ≤ i) : WellFormed (column (.position i))
  | interpolated {inner : Expr} (h : WellFormed inner) : WellFormed (interpolated inner)
  | call {func : String} {args : List Expr} (named : IsName func)
      (parts : ∀ arg ∈ args, WellFormed arg) (dotted : Bool) : WellFormed (call func args dotted)
  | binary {op : BinaryOp} {left right : Expr} {dotted : Bool}
      (whole : op = .and ∨ op = .or → dotted = false) (first : WellFormed left)
      (second : WellFormed right) : WellFormed (binary op left right dotted)
  | unary (op : UnaryOp) {operand : Expr} (h : WellFormed operand) (dotted : Bool) :
      WellFormed (unary op operand dotted)
  | index {base : Expr} {indices : List Expr} (h : WellFormed base) (some : indices ≠ [])
      (parts : ∀ item ∈ indices, WellFormed item) : WellFormed (index base indices)
  | conditional {cond yes no : Expr} (test : WellFormed cond) (first : WellFormed yes)
      (second : WellFormed no) : WellFormed (conditional cond yes no)
  | vector {items : List Expr} (parts : ∀ item ∈ items, WellFormed item) : WellFormed (vector items)
  | matrix {rows : List (List Expr)} {width : Nat} (some : rows ≠ []) (wide : 0 < width)
      (even : ∀ row ∈ rows, row.length = width) (parts : ∀ row ∈ rows, ∀ item ∈ row, WellFormed item) :
      WellFormed (matrix rows)
  | assign {target value : Expr} (left : WellFormed target) (right : WellFormed value) :
      WellFormed (assign target value)
  | destructure {items : List Expr} {value : Expr} (several : 2 ≤ items.length)
      (splats : ∀ name, splat name ∈ items → IsName name)
      (others : ∀ item ∈ items, (∀ name, item ≠ splat name) → WellFormed item)
      (right : WellFormed value) : WellFormed (assign (tuple items) value)
  | directed {letters : String} {inner : Expr} (some : letters ≠ "")
      (alphabetic : ∀ c ∈ letters.toList, c.isAlpha) (h : WellFormed inner) :
      WellFormed (directed letters inner)
  | block {statements : List Expr} (parts : ∀ s ∈ statements, WellFormed s) :
      WellFormed (block statements)

/-! ### Properties of every node -/

section

variable {P : Expr → Prop} {e : Expr}

theorem all_leaf (self : P e) (parts : e.children = []) : e.All P :=
  all_iff.mpr ⟨self, by simp [parts]⟩

theorem all_node (self : P e) (parts : ∀ c ∈ e.children, c.All P) : e.All P :=
  all_iff.mpr ⟨self, parts⟩

end

/-- What holds of every node that the notation makes, whatever its parts are. -/
structure Made (P : Expr → Prop) : Prop where
  literal : ∀ value : Literal, value.WellFormed → P (.literal value)
  ident : ∀ name, IsName name → P (.ident name)
  splat : ∀ name, IsName name → P (.splat name)
  call : ∀ func args dotted, IsName func → P (.call func args dotted)
  column : ∀ c, P (.column c)
  interpolated : ∀ inner, P (.interpolated inner)
  binary : ∀ op left right dotted, P (.binary op left right dotted)
  unary : ∀ op operand dotted, P (.unary op operand dotted)
  index : ∀ base indices, P (.index base indices)
  conditional : ∀ cond yes no, P (.conditional cond yes no)
  vector : ∀ items, P (.vector items)
  matrix : ∀ rows, P (.matrix rows)
  tuple : ∀ items, P (.tuple items)
  assign : ∀ target value, P (.assign target value)
  directed : ∀ letters inner, P (.directed letters inner)
  block : ∀ statements, P (.block statements)

/-- What holds of every node that the notation makes holds of every node of a well-formed
expression. -/
theorem WellFormed.all {P : Expr → Prop} {e : Expr} (made : Made P) (h : e.WellFormed) :
    e.All P := by
  induction h with
  | literal h => exact all_leaf (made.literal _ h) rfl
  | ident h => exact all_leaf (made.ident _ h) rfl
  | named | position => exact all_leaf (made.column _) rfl
  | interpolated _ ih => exact all_node (made.interpolated _) (by simpa [children] using ih)
  | call named _ dotted ih => exact all_node (made.call _ _ dotted named) ih
  | binary _ _ _ first second => exact all_node (made.binary ..) (by simp [children, first, second])
  | unary op _ dotted ih => exact all_node (made.unary ..) (by simpa [children] using ih)
  | index _ _ _ base ih => exact all_node (made.index ..) (List.forall_mem_cons.mpr ⟨base, ih⟩)
  | conditional _ _ _ test first second =>
      exact all_node (made.conditional ..) (by simp [children, test, first, second])
  | vector _ ih => exact all_node (made.vector _) ih
  | matrix _ _ _ _ ih =>
      refine all_node (made.matrix _) fun c child => ?_
      obtain ⟨row, listed, inside⟩ := List.mem_flatten.mp child
      exact ih row listed c inside
  | assign _ _ left right => exact all_node (made.assign ..) (by simp [children, left, right])
  | @destructure items value _ splats _ _ others right =>
      have targets : (tuple items).All P := by
        refine all_node (made.tuple items) fun item inside => ?_
        by_cases splat : ∃ name, item = .splat name
        · obtain ⟨name, rfl⟩ := splat
          exact all_leaf (made.splat name (splats name inside)) rfl
        · exact others item inside (not_exists.mp splat)
      exact all_node (made.assign ..) (by simp [children, targets, right])
  | directed _ _ _ ih => exact all_node (made.directed ..) (by simpa [children] using ih)
  | block _ ih => exact all_node (made.block _) ih

/-! ### Names -/

/-- The name that a node bears, if it is a name or a call. -/
def name? : Expr → Option String
  | ident name | splat name | call name _ _ => some name
  | _ => none

/-- All names in an expression, those of functions included. -/
def names (e : Expr) : List String :=
  e.nodes.filterMap name?

theorem made_named : Made fun e => ∀ name ∈ e.name?, IsName name := by
  constructor <;> simp [name?]

theorem WellFormed.isName {e : Expr} (h : e.WellFormed) {name : String} (inside : name ∈ e.names) :
    IsName name := by
  obtain ⟨n, node, named⟩ := List.mem_filterMap.mp inside
  exact h.all made_named n node name named

end Expr

theorem made_plain : Expr.Made Expr.Plain where
  literal value h := by
    cases value with
    | float x => exact h.1
    | _ => trivial
  ident _ isName := isName.isFresh.param
  splat _ isName := isName.isFresh.param
  call _ _ _ _ := trivial
  column _ := trivial
  interpolated _ := trivial
  binary _ _ _ _ := trivial
  unary _ _ _ := trivial
  index _ _ := trivial
  conditional _ _ _ := trivial
  vector _ := trivial
  matrix _ := trivial
  tuple _ := trivial
  assign _ _ := trivial
  directed _ _ := trivial
  block _ := trivial

end TablePlan
