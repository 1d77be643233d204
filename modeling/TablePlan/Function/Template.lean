import TablePlan.Expr.Children
import TablePlan.Kind
import TablePlan.Text.Pieces

/-!
# Function templates

A body with its parameters and calling convention, before the scope of the caller is known. It
lists the free names that the function will capture, and says how a sink is named after it.
-/

namespace TablePlan

/-- How a sink without a target is named. -/
inductive Naming where
  /-- After the one column that is read. -/
  | identity
  /-- After the columns that are read and the function applied. -/
  | marker (text : String)
deriving DecidableEq

namespace Naming

/-- Names joined by underscores with a marker at the end. -/
def marked (sources : List String) (text : String) : String :=
  if sources.isEmpty then text else Text.joinWith "_" sources ++ "_" ++ text

/-- The name of the sink of a function that reads the given columns. -/
def sinkName (naming : Naming) (sources : List String) : String :=
  match naming, sources with
  | identity, [name] => name
  | identity, sources => marked sources "function"
  | marker text, sources => marked sources text

end Naming

namespace Expr

/-- The names that the target of an assignment binds. -/
def boundNames : Expr → List String
  | tuple items => items.filterMap fun
    | ident name | splat name => some name
    | _ => none
  | ident name | splat name => [name]
  | _ => []

/-- The names that assignments anywhere in an expression bind. -/
def localNames (e : Expr) : List String :=
  e.nodes.flatMap fun
    | assign target _ => target.boundNames
    | _ => []

/-- The names used that are neither parameters nor bound by an assignment, in order of their first
use. -/
def freeNames (params : List String) (e : Expr) : List String :=
  let locals := e.localNames
  let used := e.nodes.filterMap fun
    | ident name => if params.contains name || locals.contains name then none else some name
    | _ => none
  used.foldl (fun names name => if names.contains name then names else names ++ [name]) []

/-- Whether an expression is just a parameter. -/
def isParam (params : List String) : Expr → Bool
  | ident name => params.contains name
  | _ => false

/-- How sinks of a function with this body are named. -/
def naming (params : List String) : Expr → Naming
  | call func args false =>
    if !args.isEmpty && args.all (isParam params) then .marker func else .marker "function"
  | e => if isParam params e then .identity else .marker "function"

/-- Rename identifiers everywhere. -/
def rename (aliases : List (String × String)) (e : Expr) : Expr :=
  Id.run <| e.substitute fun
    | ident name => some (pure (ident ((aliases.lookup name).getD name)))
    | _ => none

end Expr

/-- A function whose captured values are not known yet. -/
structure Template where
  params : List String
  body : Expr
  mode : Mode
  passMissing : Bool
  captures : List String
  naming : Naming

namespace Template

/-- The template of a body. -/
def ofBody (params : List String) (body : Expr) (mode : Mode) (passMissing : Bool) : Template :=
  ⟨params, body, mode, passMissing, body.freeNames params, body.naming params⟩

/-- Drop the parameters that have an alias and use the alias instead. -/
def mergeParams (t : Template) (aliases : List (String × String)) : Template :=
  if aliases.isEmpty then t
  else
    { t with
      params := t.params.filter fun p => (aliases.lookup p).isNone
      body := t.body.rename aliases }

end Template

end TablePlan
