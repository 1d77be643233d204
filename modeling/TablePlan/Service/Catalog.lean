import TablePlan.Json.Basic
import TablePlan.Schema

/-!
# The table catalog

The tables that calls can be explained against, one for each name.
-/

namespace TablePlan

namespace Column

/-- The document of a column. -/
def toJson (c : Column) : Json :=
  .object [("name", .string c.name), ("data_type", .string c.dataType.name),
    ("nullable", .bool c.nullable)]

end Column

namespace Schema

/-- The document of a schema. -/
def toJson (schema : Schema) : Json :=
  .object [("name", .string schema.name), ("columns", .array (schema.columns.map Column.toJson))]

end Schema

/-- There is no table of a name. -/
structure TableNotFound where
  name : String

namespace TableNotFound

/-- The wording of the error. -/
def message (e : TableNotFound) : String :=
  "Table '" ++ e.name ++ "' not found"

end TableNotFound

/-- Tables, at most one of each name, sorted by name. -/
structure Catalog where
  tables : List Schema

namespace Catalog

/-- No tables. -/
def empty : Catalog := ⟨[]⟩

/-- Put a table at its place among tables sorted by name, replacing one of the same name. -/
def insert (schema : Schema) : List Schema → List Schema
  | [] => [schema]
  | other :: rest =>
    if schema.name = other.name then schema :: rest
    else if schema.name < other.name then schema :: other :: rest
    else other :: insert schema rest

/-- Add a table, which replaces one of the same name. -/
def add (c : Catalog) (schema : Schema) : Catalog :=
  ⟨insert schema c.tables⟩

/-- The catalog of several tables; of one name, the last counts. -/
def ofTables (tables : List Schema) : Catalog :=
  tables.foldl add empty

/-- The names of the tables in order. -/
def tableNames (c : Catalog) : List String :=
  c.tables.map Schema.name

/-- The table of a name. -/
def table (c : Catalog) (name : String) : Except TableNotFound Schema :=
  match c.tables.find? fun t => t.name == name with
  | some schema => .ok schema
  | none => .error ⟨name⟩

/-- The number of tables. -/
def size (c : Catalog) : Nat :=
  c.tables.length

/-- The document of all tables in order. -/
def listing (c : Catalog) : Json :=
  .array (c.tables.map Schema.toJson)

end Catalog

end TablePlan
