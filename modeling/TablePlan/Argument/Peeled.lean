import TablePlan.Argument.Directive
import TablePlan.Expr.Children
import TablePlan.Expr.Printer

/-!
# The layers of an argument

An argument has a directive around it or around the value of its assignment, perhaps a target, and
a body. A directive that collects assignments goes around the whole argument only, and no
directive is left deeper inside.
-/

namespace TablePlan

/-- The part that an expression plays in an argument. -/
inductive Role where
  | plain
  | column (ident : ColumnIdent)
  | interpolated (inner : Expr)
  | directed (directives : Directives) (inner : Expr)
  | block (statements : List Expr)
  | assignment (target value : Expr)

namespace Expr

/-- The part that an expression plays; it fails on unknown directive letters only. -/
def role : Expr → Except ArgumentError Role
  | column c => .ok (.column c)
  | interpolated inner => .ok (.interpolated inner)
  | directed letters inner => return .directed (← Directives.parse letters) inner
  | block statements => .ok (.block statements)
  | assign target value => .ok (.assignment target value)
  | _ => .ok .plain

/-- The letters of every directive inside an expression. -/
def directiveLetters (e : Expr) : List String :=
  e.nodes.filterMap fun
    | directed letters _ => some letters
    | _ => none

end Expr

/-- An argument taken apart. -/
structure Peeled where
  directives : Directives
  target : Option Expr
  body : Expr

namespace Peeled

/-- The union of further directives onto given ones. -/
def unionAll (d : Directives) : List String → Except ArgumentError Directives
  | [] => .ok d
  | letters :: rest => do unionAll (d.union (← Directives.parse letters)) rest

/-- Refuse directives inside the target and the body. Together they may still be a conflict of
modes, which is reported first. -/
def refuseInner (p : Peeled) : Except ArgumentError Unit := do
  let inner := (p.target.toList ++ [p.body]).flatMap Expr.directiveLetters
  if inner.isEmpty then return
  let combined ← unionAll p.directives inner
  if combined.isConflicting then throw (.conflictingDirective combined.letters)
  throw (.malformedDirective (String.join inner)
    "directives must wrap a whole argument or the right-hand side of its assignment")

/-- Take the outermost directive and assignment off an argument. -/
def outer (arg : Expr) : Except ArgumentError Peeled := do
  match ← arg.role with
  | .directed directives inner =>
    match ← inner.role with
    | .assignment target value =>
      if directives.collect then return ⟨directives, none, inner⟩
      else return ⟨directives, some target, value⟩
    | _ => return ⟨directives, none, inner⟩
  | .assignment target value =>
    match ← value.role with
    | .directed directives inner =>
      if directives.collect then
        throw (.invalidDirectiveTarget "t" inner.text
          ("the assignment target " ++ target.text
            ++ " already names the sink; @t must wrap the whole argument"))
      return ⟨directives, some target, inner⟩
    | _ => return ⟨.empty, some target, value⟩
  | _ => return ⟨.empty, none, arg⟩

/-- Take an argument apart. -/
def ofArgument (arg : Expr) : Except ArgumentError Peeled := do
  let p ← outer arg
  refuseInner p
  return p

end Peeled

end TablePlan
