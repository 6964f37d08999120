import SchemaWeave.Schema.Resolve
import SchemaWeave.Text.Blank
import SchemaWeave.Yaml.Decode

/-!
What documents are completed with: the type manifest, how types are resolved, the imports of
expressions outside any file, and the host. Every part has a default, so that an empty text is a
configuration; a part of any other name is refused.
-/

namespace SchemaWeave

/-- The command line of a host, and how many milliseconds it may take for a call. -/
structure ScriptConfig where
  command : String
  timeout : Nat
  deriving DecidableEq, Repr

structure Config where
  types : Option String
  options : ResolverOptions
  imports : Dictionary
  script : Option ScriptConfig

/-- How long a host may take unless configured otherwise. -/
def ScriptConfig.defaultTimeout : Nat := 5000

namespace Config

/-- The name under which a configuration is looked for. -/
def fileName : String := "docapi.yaml"

def default : Config := ⟨none, .default, [], none⟩

open Yaml (Decoder)
open Yaml.Decoder (record list text optional dictionary natBelow)

/-- The host of a configuration. -/
def scriptDocument : Decoder ScriptConfig := fun s => do
  let parts ← record ["command", "timeout_ms"] .refused s
  let timeout := parts.withDefault "timeout_ms" ScriptConfig.defaultTimeout
    (natBelow Number.wordSize)
  return {
    command := ← parts.required "command" text
    timeout := ← timeout }

/-- A whole configuration. -/
def document : Decoder Config := fun s => do
  let names := ["types", "recursion_bound", "name_tag", "param_tags", "imports", "script"]
  let parts ← record names .refused s
  let standard := ResolverOptions.default
  let bound ← parts.withDefault "recursion_bound" standard.recursionBound
    (natBelow ResolverOptions.boundLimit)
  let nameTag ← parts.withDefault "name_tag" standard.nameTag (optional text)
  let paramTags ← parts.withDefault "param_tags" standard.paramTags (list text)
  return {
    types := ← parts.withDefault "types" none (optional text)
    options := ⟨bound, nameTag, paramTags⟩
    imports := ← parts.withDefault "imports" [] dictionary
    script := ← parts.withDefault "script" none (optional scriptDocument) }

/-- Reads the text of a configuration. -/
def ofYaml (text : String) : Except Yaml.Fault Config :=
  if (Text.trim text.toList).isEmpty then .ok default
  else document.ofText text

end Config

end SchemaWeave
