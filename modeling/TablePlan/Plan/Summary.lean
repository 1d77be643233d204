import TablePlan.Digest.Sha256
import TablePlan.Json.Writer
import TablePlan.Kind

/-!
# Summaries

The document of a bound call and its fingerprint, the digest of the text of that document. The
order of the members is fixed, and options are left out when there are none.
-/

namespace TablePlan

/-- What is known of a function without calling it. -/
structure FunctionSummary where
  params : List String
  body : String
  mode : Mode
  passMissing : Bool

/-- Where results go. -/
inductive Sink where
  | column (name : String)
  /-- To the fields of the record that the function returns. -/
  | expandRecord
deriving DecidableEq

/-- One function with the columns it reads and its sink. -/
structure TripleSummary where
  argument : Nat
  sources : List String
  function : FunctionSummary
  sink : Sink

/-- A bound call without the functions themselves. -/
structure Summary where
  kind : Kind
  operation : Operation
  options : List (String × Json)
  triples : List TripleSummary

/-- An array of strings. -/
def Json.strings (items : List String) : Json :=
  .array (items.map .string)

namespace FunctionSummary

/-- The document of a function. -/
def toJson (f : FunctionSummary) : Json :=
  .object [("params", .strings f.params), ("body", .string f.body), ("mode", .string f.mode.name),
    ("null_propagating", .bool f.passMissing)]

end FunctionSummary

namespace Sink

/-- The document of a sink. -/
def toJson : Sink → Json
  | column name => .object [("type", .string "column"), ("name", .string name)]
  | expandRecord => .object [("type", .string "expand_record")]

end Sink

namespace TripleSummary

/-- The document of one function with its sources and sink. -/
def toJson (t : TripleSummary) : Json :=
  .object [("argument", .int t.argument), ("sources", .strings t.sources),
    ("function", t.function.toJson), ("sink", t.sink.toJson)]

end TripleSummary

namespace Summary

/-- The document of the options, each as a pair. -/
def optionsJson (options : List (String × Json)) : Json :=
  .array (options.map fun o => .array [.string o.1, o.2])

/-- The document of a summary. -/
def toJson (s : Summary) : Json :=
  .object (("kind", .string s.kind.name) :: ("operation", .string s.operation.name)
    :: (if s.options.isEmpty then [] else [("options", optionsJson s.options)])
    ++ [("triples", .array (s.triples.map TripleSummary.toJson))])

/-- The text of a summary. -/
def text (s : Summary) : String :=
  s.toJson.text

/-- The digest of the text of a summary. -/
def fingerprint (s : Summary) : String :=
  Sha256.hexDigest s.text

end Summary

end TablePlan
