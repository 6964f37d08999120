import SchemaWeave.Document.Merge
import SchemaWeave.Schema.Basic

/-!
The document form of each shape:

    object       type, description?, properties, example?, modify?
    array        type, description?, items
    scalar       type, description?, enum?, default?, example?
    reference    $ref
    composition  allOf, x-properties
    any          description?, x-any, oneOf
    error        error, or x-error for a soft one

Members that share a name are merged.
-/

namespace SchemaWeave

/-- An entry that is present only with a value. -/
def Entries.ofOption (key : String) (value : Option Node) : Entries :=
  value.toList.map fun v => (key, v)

def Modifier.toNode (m : Modifier) : Node :=
  .map [("name", .string m.name), ("args", .list m.arguments)]

namespace Schema

def typeEntry (keyword : String) : String × Node := ("type", .string keyword)

def descriptionEntry (description : Option String) : Entries :=
  Entries.ofOption "description" (description.map .string)

/-- The calls that were chained, if there are any. -/
def modifierEntry (modifiers : List Modifier) : Entries :=
  if modifiers.isEmpty then [] else [("modify", .list (modifiers.map Modifier.toNode))]

/-- The values that a scalar may take, if they are listed. -/
def constantsEntry (constants : List Node) : Entries :=
  if constants.isEmpty then [] else [("enum", .list constants)]

/-- The alternatives of a schema that anything satisfies. -/
def anyAlternatives : Node :=
  .list (["array", "boolean", "integer", "number", "object", "string"].map fun keyword =>
    .map [typeEntry keyword])

/-- A property's schema with the metadata of its field. -/
def withMetadata (metadata : Entries) (schema : Node) : Node :=
  if metadata.isEmpty then schema
  else
    match schema with
    | .map entries => .map (Entries.insert "x-meta" (.map metadata) entries)
    | other => other

/-- The key of an error. -/
def errorKey : Severity → String
  | .hard => "error"
  | .soft => "x-error"

def scalarNode (s : ScalarSchema) : Node :=
  .map (typeEntry s.kind.keyword :: descriptionEntry s.description ++ constantsEntry s.constants ++
    Entries.ofOption "default" s.fallback ++ Entries.ofOption "example" s.sample)

mutual

/-- The document form of a schema. -/
def toNode : Schema → Node
  | .object properties description sample modifiers =>
    .map (typeEntry "object" :: descriptionEntry description ++
      [("properties", .map (toEntries [] properties))] ++ Entries.ofOption "example" sample ++
      modifierEntry modifiers)
  | .array items description =>
    .map (typeEntry "array" :: descriptionEntry description ++ [("items", toNode items)])
  | .scalar s => scalarNode s
  | .ref target => .map [("$ref", .string target)]
  | .allOf members flattened =>
    .map [("allOf", .list (toNodes members)), ("x-properties", .map (toEntries [] flattened))]
  | .any description =>
    .map (descriptionEntry description ++ [("x-any", .bool true), ("oneOf", anyAlternatives)])
  | .error message severity => .map [(errorKey severity, .string message)]

def toNodes : List Schema → List Node
  | [] => []
  | schema :: rest => toNode schema :: toNodes rest

/-- The members of an object, set one after the other onto those before. -/
def toEntries (before : Entries) : List (Member Schema) → Entries
  | [] => before
  | ⟨name, schema, metadata, _⟩ :: rest =>
    toEntries (Entries.set name (withMetadata metadata (toNode schema)) before) rest

end

end Schema

end SchemaWeave
