import TablePlan.ColumnSpec.Printer

/-!
# Resolving specifiers to columns

Resolution depends on the schema alone. Tests, ranges and complements follow the order of the
schema, explicit collections keep their own, and every selection has the shape it came from.
-/

namespace TablePlan

/-- Why a specifier does not resolve. -/
inductive SpecError where
  | unknownColumn (name : String)
  | positionOutOfRange (index : Int64) (columns : Nat)
  | notSingle (spec : String)
  | notASpecifier (type : String)
  | badGrid (shape : Shape) (items : Nat)
  | stopped (cause : Stop)

namespace SpecError

/-- The wording of the error. -/
def message : SpecError → String
  | unknownColumn name => "Column not found: " ++ name
  | positionOutOfRange index columns =>
    "Column position " ++ toString index ++ " out of range for a table with " ++ toString columns
      ++ " columns"
  | notSingle spec => "Expected a single column, got " ++ spec
  | notASpecifier type => "A " ++ type ++ " value cannot be used as a column specifier"
  | badGrid shape items =>
    "Grid shape " ++ Shape.text shape ++ " does not match " ++ toString items ++ " items"
  | stopped cause => cause.message

/-- What a computation broke off for, if it did. -/
def stop? : SpecError → Option Stop
  | stopped cause => some cause
  | _ => none

end SpecError

/-- Column names with the shape they are arranged in. -/
structure Selection where
  names : List String
  shape : Shape
deriving DecidableEq

namespace Selection

/-- A single name. -/
def scalar (name : String) : Selection := ⟨[name], []⟩

/-- A list of names. -/
def vector (names : List String) : Selection := ⟨names, [names.length]⟩

@[simp] theorem scalar_names (name : String) : (scalar name).names = [name] := rfl

@[simp] theorem scalar_shape (name : String) : (scalar name).shape = [] := rfl

@[simp] theorem vector_names (names : List String) : (vector names).names = names := rfl

@[simp] theorem vector_shape (names : List String) : (vector names).shape = [names.length] := rfl

end Selection

namespace ColumnSpec

/-- The one existing column that a name or a position means. -/
def resolveSingle (schema : Schema) : ColumnSpec → Except SpecError String
  | name n => if (schema.indexOf? n).isSome then .ok n else .error (.unknownColumn n)
  | position i =>
    let outOfRange := SpecError.positionOutOfRange i schema.columns.length
    if i < 1 then .error outOfRange
    else
      match schema.columns[i.toInt.toNat - 1]? with
      | some column => .ok column.name
      | none => .error outOfRange
  | other => .error (.notSingle other.text)

/-- The position in the schema of the one column that a specifier means. -/
def resolveIndex (schema : Schema) (spec : ColumnSpec) : Except SpecError Nat := do
  let name ← spec.resolveSingle schema
  match schema.indexOf? name with
  | some i => .ok i
  | none => .error (.unknownColumn spec.text)

/-- The columns that a specifier means. -/
def resolve (schema : Schema) : ColumnSpec → Except SpecError Selection
  | collection items => return .vector (← items.mapM (resolveSingle schema))
  | grid g =>
    match Shape.count? g.shape with
    | none => .error (.stopped (.sizes g.shape))
    | some count => do
      if count ≠ g.elements.length then throw (.badGrid g.shape g.elements.length)
      return ⟨← g.elements.mapM (resolveSingle schema), g.shape⟩
  | predicate p => .ok (.vector (schema.columnNames.filter p.accepts))
  | range first last => do
    let start ← first.resolveIndex schema
    let stop ← last.resolveIndex schema
    return .vector ((schema.columnNames.drop start).take (stop + 1 - start))
  | typeFilter f =>
    .ok (.vector ((schema.columns.filter fun c => f.accepts c.dataType).map Column.name))
  | all => .ok (.vector schema.columnNames)
  | not inner => do
    let excluded ← inner.resolve schema
    return .vector (schema.columnNames.filter fun n => !excluded.names.contains n)
  | single => return .scalar (← single.resolveSingle schema)

end ColumnSpec

end TablePlan
