/-!
# Table schemas

The columns of a table with the types of their elements, and the filters that select columns by
type.
-/

namespace TablePlan

/-- The type of the elements of a column. -/
inductive DataType where
  | bool
  | int
  | float
  | string
  | date
  | unknown
deriving DecidableEq

namespace DataType

/-- All types. -/
def all : List DataType := [bool, int, float, string, date, unknown]

/-- The name of a type. -/
def name : DataType → String
  | bool => "bool"
  | int => "int"
  | float => "float"
  | string => "string"
  | date => "date"
  | unknown => "unknown"

/-- The type with a name. -/
def ofName? (s : String) : Option DataType :=
  all.find? fun t => t.name == s

end DataType

/-- A test on the type of a column. -/
inductive TypeFilter where
  | any
  | number
  | integer
  | float
  | string
  | bool
deriving DecidableEq

namespace TypeFilter

/-- The filter that a type name stands for in an interpolation. -/
def ofTypeName? : String → Option TypeFilter
  | "Any" => some any
  | "Real" | "Number" => some number
  | "Integer" | "Int" | "Int64" => some integer
  | "AbstractFloat" | "Float64" | "Float32" => some float
  | "AbstractString" | "String" => some string
  | "Bool" => some bool
  | _ => none

/-- Whether a column of the given type passes. -/
def accepts : TypeFilter → DataType → Bool
  | any, _ => true
  | number, t => t == .int || t == .float
  | integer, t => t == .int
  | float, t => t == .float
  | string, t => t == .string
  | bool, t => t == .bool

/-- The name of a filter. -/
def name : TypeFilter → String
  | any => "any"
  | number => "number"
  | integer => "integer"
  | float => "float"
  | string => "string"
  | bool => "bool"

/-- The name of a filter with a capital. -/
def title : TypeFilter → String
  | any => "Any"
  | number => "Number"
  | integer => "Integer"
  | float => "Float"
  | string => "String"
  | bool => "Bool"

/-- All filters. -/
def all : List TypeFilter := [any, number, integer, float, string, bool]

/-- The filter with a name. -/
def ofName? (s : String) : Option TypeFilter :=
  all.find? fun f => f.name == s

end TypeFilter

/-- One column of a table. -/
structure Column where
  name : String
  dataType : DataType := .unknown
  nullable : Bool := false

/-- The columns of a table in order. -/
structure Schema where
  name : String
  columns : List Column

namespace Schema

/-- The names of the columns in order. -/
def columnNames (schema : Schema) : List String :=
  schema.columns.map Column.name

/-- The position of the first column with a name, counted from zero. -/
def indexOf? (schema : Schema) (name : String) : Option Nat :=
  schema.columns.findIdx? fun c => c.name == name

/-- The first column with a name. -/
def column? (schema : Schema) (name : String) : Option Column :=
  schema.columns.find? fun c => c.name == name

end Schema

end TablePlan
