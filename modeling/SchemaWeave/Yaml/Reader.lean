import SchemaWeave.Json.Printer
import SchemaWeave.Yaml.Plain
import SchemaWeave.Yaml.Tree

/-!
A document of any form. Tags that it invents are dropped, keys of any kind become text, and
duplicate keys are kept.
-/

namespace SchemaWeave

namespace Yaml

/-- The node that is seen; no more than the given number of collections are open inside one
another. -/
def nodeWithin : Nat → Decoder Node
  | _, .void => return .null
  | _, .scalar tag style text => scalarNode tag style text
  | 0, _ => throw .tooDeep
  | depth + 1, .sequence items => do
    return .list (← items.mapM (Tree.decode (nodeWithin depth)))
  | depth + 1, .mapping entries => do
    return .map (← entries.mapM fun (key, value) => do
      let key ← key.decode (nodeWithin depth)
      return (key.plainText, ← value.decode (nodeWithin depth)))

/-- Any document. -/
def node : Decoder Node := nodeWithin Tree.maxDepth

end Yaml

/-- Reads YAML text as a document. -/
def Node.ofYaml (text : String) : Except Yaml.Fault Node := Yaml.node.ofText text

end SchemaWeave
