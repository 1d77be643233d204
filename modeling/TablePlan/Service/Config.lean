import TablePlan.Json.Skipping
import TablePlan.Json.Writer
import TablePlan.Service.Catalog

/-!
# Configuration

The configuration of the service comes from a text and from environment variables, which win. A
scalar that is asked for as text counts as it is written, quoted or not. Members that are not
known are passed over.
-/

namespace TablePlan

/-- A configuration text: scalars as they are written, lists and named members. -/
inductive Node where
  | scalar (text : String) (plain : Bool)
  | sequence (items : List Node)
  | mapping (members : List (String × Node))

namespace Node

/-- A node that nests less deeply than `depth`. -/
def read? : Nat → List Char → Option (Node × List Char)
  | 0, _ => none
  | depth + 1, cs =>
    match cs with
    | '"' :: rest => do
      let (s, rest) ← Json.string? rest
      some (scalar s false, rest)
    | '[' :: rest => do
      let (items, rest) ← Json.items? ']' (read? depth) rest
      some (sequence items, rest)
    | '\x7b' :: rest => do
      let (members, rest) ← Json.items? '\x7d' (Json.member (read? depth)) rest
      some (mapping members, rest)
    | cs => do
      let (_, rest) ← Json.skip? cs
      some (scalar (String.ofList (cs.take (cs.length - rest.length))) true, rest)

/-- The node that a whole text stands for; a blank text has no members. -/
def ofText? (text : String) : Option Node :=
  match Json.skipSpace text.toList with
  | [] => some (mapping [])
  | cs => do
    let (node, rest) ← read? Json.depthLimit cs
    if (Json.skipSpace rest).isEmpty then some node else none

/-- The nodes of the members with the given names, none of which may come twice. -/
def members? (names : List String) : Node → Option (List (Option Node))
  | mapping members =>
    let repeated := names.any fun n => decide (1 < (members.filter fun m => m.1 == n).length)
    if repeated then none else some (names.map fun n => members.lookup n)
  | sequence _ | scalar _ _ => none

/-- A text. -/
def text? : Node → Option String
  | scalar s _ => some s
  | _ => none

/-- A truth value. -/
def bool? : Node → Option Bool
  | scalar "true" true => some true
  | scalar "false" true => some false
  | _ => none

/-- The items of a list. -/
def items? : Node → Option (List Node)
  | sequence items => some items
  | _ => none

end Node

/-- The number that tells the endpoints of a host apart. -/
abbrev Endpoint := UInt16

namespace Endpoint

/-- The endpoint whose number digits stand for. -/
def ofDigits? (cs : List Char) : Option Endpoint :=
  if cs.isEmpty || !cs.all Char.isDigit then none
  else
    let n := Decimal.natOfDigits cs
    if n < UInt16.size then some (UInt16.ofNat n) else none

/-- The endpoint of a node. -/
def ofNode? : Node → Option Endpoint
  | .scalar s true => ofDigits? s.toList
  | _ => none

/-- The endpoint of a text, which may begin with a plus sign. -/
def ofText? (s : String) : Option Endpoint :=
  match s.toList with
  | '+' :: rest => ofDigits? rest
  | cs => ofDigits? cs

end Endpoint

/-- Where the service listens. -/
structure ServerConfig where
  host : String := "127.0.0.1"
  endpoint : Endpoint := 8080

/-- What the service logs, and where to. -/
structure LoggingConfig where
  level : String := "info"
  format : String := "pretty"
  output : String := "stdout"
  directory : String := "./logs"

/-- The configuration of the service. -/
structure Config where
  server : ServerConfig := {}
  logging : LoggingConfig := {}
  tables : List Schema := []

/-- Why there is no configuration. -/
inductive ConfigError where
  | missingFile
  | malformed
  | invalidVariable (name value : String)

namespace ConfigError

/-- The wording of the error, as far as it is fixed. -/
def message : ConfigError → String
  | missingFile => "Failed to read config file: No such file or directory (os error 2)"
  | malformed => "Failed to parse YAML: "
  | invalidVariable name value => "Invalid value for " ++ name ++ ": " ++ value

end ConfigError

/-- Environment variables with their values. -/
abbrev Environment := List (String × String)

namespace ServerConfig

/-- The server part of a node. -/
def ofNode? (node : Node) : Option ServerConfig := do
  match ← node.members? ["host", "port"] with
  | [some host, some endpoint] => some ⟨← host.text?, ← Endpoint.ofNode? endpoint⟩
  | _ => none

end ServerConfig

namespace LoggingConfig

/-- The logging part of a node. -/
def ofNode? (node : Node) : Option LoggingConfig := do
  match ← node.members? ["level", "format", "output", "directory"] with
  | [some level, some format, some output, some directory] =>
    some ⟨← level.text?, ← format.text?, ← output.text?, ← directory.text?⟩
  | _ => none

end LoggingConfig

/-- What a node stands for if there is one, and the default otherwise. -/
def orDefault {α : Type} (default : α) (read : Node → Option α) : Option Node → Option α
  | none => some default
  | some node => read node

namespace Column

/-- The column of a node. -/
def ofNode? (node : Node) : Option Column := do
  match ← node.members? ["name", "data_type", "nullable"] with
  | [some name, type, nullable] =>
    let type ← orDefault .unknown (fun n => n.text?.bind DataType.ofName?) type
    some ⟨← name.text?, type, ← orDefault false Node.bool? nullable⟩
  | _ => none

end Column

namespace Schema

/-- The schema of a node. -/
def ofNode? (node : Node) : Option Schema := do
  match ← node.members? ["name", "columns"] with
  | [some name, some columns] => some ⟨← name.text?, ← (← columns.items?).mapM Column.ofNode?⟩
  | _ => none

end Schema

namespace Config

/-- The configuration of a node. -/
def ofNode? (node : Node) : Option Config := do
  match ← node.members? ["server", "logging", "tables"] with
  | [server, logging, tables] =>
    let tables ← orDefault [] (fun n => n.items?.bind fun items => items.mapM Schema.ofNode?) tables
    some ⟨← orDefault {} ServerConfig.ofNode? server, ← orDefault {} LoggingConfig.ofNode? logging,
      tables⟩
  | _ => none

/-- The variable that sets the endpoint. -/
def endpointVariable : String := "FRAMEMACROS_SERVER_PORT"

/-- The configuration with what the environment sets. -/
def override (env : Environment) (c : Config) : Except ConfigError Config := do
  let get (name default : String) : String := (env.lookup name).getD default
  let endpoint ← match env.lookup endpointVariable with
    | none => pure c.server.endpoint
    | some value =>
      match Endpoint.ofText? value with
      | some endpoint => pure endpoint
      | none => throw (.invalidVariable endpointVariable value)
  return {
    c with
    server := ⟨get "FRAMEMACROS_SERVER_HOST" c.server.host, endpoint⟩
    logging := {
      level := get "RUST_LOG" c.logging.level
      format := get "LOG_FORMAT" c.logging.format
      output := get "LOG_OUTPUT" c.logging.output
      directory := get "LOG_DIR" c.logging.directory } }

/-- The configuration of a text in an environment. -/
def ofText (env : Environment) (text : String) : Except ConfigError Config :=
  match (Node.ofText? text).bind ofNode? with
  | some c => c.override env
  | none => .error .malformed

/-- The configuration of a file, whose contents are given if there is one. -/
def load (env : Environment) : Option String → Except ConfigError Config
  | some text => ofText env text
  | none => .error .missingFile

/-- The configuration of a file, or the default if there is none. -/
def loadOrDefault (env : Environment) : Option String → Except ConfigError Config
  | some text => ofText env text
  | none => override env {}

/-- The path of the configuration file. -/
def path (env : Environment) : String :=
  (env.lookup "FRAMEMACROS_CONFIG").getD "config.yaml"

/-- The address to listen on. -/
def bindAddress (c : Config) : String :=
  c.server.host ++ ":" ++ toString c.server.endpoint

/-- The document of a configuration. -/
def toJson (c : Config) : Json :=
  .object [
    ("server", .object [("host", .string c.server.host), ("port", .int c.server.endpoint.toNat)]),
    ("logging", .object [("level", .string c.logging.level), ("format", .string c.logging.format),
      ("output", .string c.logging.output), ("directory", .string c.logging.directory)]),
    ("tables", .array (c.tables.map Schema.toJson))]

end Config

end TablePlan
