/-!
# Logging options

Options are read without regard to the case of their letters; what is not known counts as the
default.
-/

namespace TablePlan

/-- The form of a log line. -/
inductive LogFormat where
  | pretty
  | json
  | compact
deriving DecidableEq

namespace LogFormat

/-- The format that a text asks for. -/
def ofText (s : String) : LogFormat :=
  match s.toLower with
  | "json" => json
  | "compact" => compact
  | _ => pretty

/-- The name of a format. -/
def name : LogFormat → String
  | pretty => "Pretty"
  | json => "Json"
  | compact => "Compact"

end LogFormat

/-- Where log lines go. -/
inductive LogOutput where
  | stdout
  | file
  | both
deriving DecidableEq

namespace LogOutput

/-- The output that a text asks for. -/
def ofText (s : String) : LogOutput :=
  match s.toLower with
  | "file" => file
  | "both" => both
  | _ => stdout

/-- The name of an output. -/
def name : LogOutput → String
  | stdout => "Stdout"
  | file => "File"
  | both => "Both"

end LogOutput

end TablePlan
