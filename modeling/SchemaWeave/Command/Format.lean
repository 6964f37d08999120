import SchemaWeave.Command.PathName
import SchemaWeave.Json.Printer
import SchemaWeave.Yaml.Writer

/-!
The formats in which commands print documents.
-/

namespace SchemaWeave

inductive Format where
  | yaml
  | json
  deriving DecidableEq, Repr

namespace Format

/-- The format that a path's extension stands for, in letters of either case. -/
def ofPath (path : String) : Format :=
  if (PathName.extension? path).any (·.toLower == "json") then .json else .yaml

/-- The format of a name. -/
def ofName? (name : String) : Option Format :=
  if name = "yaml" then some .yaml else if name = "json" then some .json else none

/-- The text of a document, which ends in a line end. -/
def render (format : Format) (node : Node) : String :=
  match format with
  | .yaml => node.toYaml
  | .json => node.toJsonPretty ++ "\n"

end Format

end SchemaWeave
