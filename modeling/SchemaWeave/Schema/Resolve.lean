import SchemaWeave.Expr.Value
import SchemaWeave.Schema.Visits

/-!
A declared type that is registered becomes a reference, unless its inline form is asked for. One
that is already being resolved as often as the recursion bound allows is cut off with a soft error.
Any other type becomes the schema of its shape. A pointer is what it points to. An embedded member
without a tag adds its properties to those of its struct when it is a plain object; otherwise the
struct becomes a composition, which lists the properties of all its members.
-/

namespace SchemaWeave

/-- How types are resolved: how often a type may be entered on one chain, the tag that names
properties, and the tags that name parameters before it. -/
structure ResolverOptions where
  recursionBound : Nat
  nameTag : Option String
  paramTags : List String

/-- Recursion bounds are numbers of 32 bits, below this limit. -/
def ResolverOptions.boundLimit : Nat := 4294967296

/-- A type may be entered twice unless configured otherwise. -/
def ResolverOptions.default : ResolverOptions := ⟨2, none, []⟩

/-- What resolving looks at: the graph, the options, and the reference targets of registered
types. -/
structure Resolver where
  graph : Graph
  options : ResolverOptions
  registry : Dictionary

/-- Resolving counts the types that are being entered. -/
abbrev Resolving := StateM Visits

namespace Resolver

def new (graph : Graph) (options : ResolverOptions) : Resolver := ⟨graph, options, []⟩

/-- Records that the type with a key is defined at a path. -/
def register (r : Resolver) (key path : String) : Resolver :=
  { r with registry := Dictionary.insert key ("#/" ++ path) r.registry }

/-- The reference target of a registered type. -/
def target? (r : Resolver) (key : String) : Option String := Dictionary.get? key r.registry

/-- How many aliases and pointers are followed in search of a definition. -/
def maxHops : Nat := 16

/-- What a type denotes after at most `n` looks. -/
def definitionWithin (graph : Graph) : Nat → TypeRef → Option TypeRef
  | 0, _ => none
  | n + 1, t =>
    match t.shape with
    | .expr (.pointer target) => definitionWithin graph n (.anonymous t.file target)
    | .expr (.named name) => do definitionWithin graph n (← graph.resolveInFile t.file none name)
    | .expr (.qualified package name) => do
      definitionWithin graph n (← graph.resolveInFile t.file (some package) name)
    | _ => some t

/-- The definition that a type denotes through pointers and names. -/
def definition? (r : Resolver) (t : TypeRef) : Option TypeRef := definitionWithin r.graph maxHops t

/-- The struct that a type denotes, if it denotes one. -/
def structOf? (r : Resolver) (t : TypeRef) : Option TypeRef :=
  (r.definition? t).filter TypeRef.isStruct

/-- The name before the first comma of a tag's text. -/
def tagName (text : String) : String := String.ofList (text.toList.takeWhile (· != ','))

/-- The name of a field by the first of the tags that gives one, or its own name. A dash leaves the
field out. -/
def taggedName (f : Field) : List String → Option String
  | [] => some f.name
  | tag :: rest =>
    match (Dictionary.get? tag f.tag).map tagName with
    | none => taggedName f rest
    | some name =>
      if name = "-" then none else if name.isEmpty then taggedName f rest else some name

/-- The name of a field, by its metadata or by tags. -/
def fieldName (tags : List String) (f : Field) : Option String :=
  match (Entries.get? "name" f.doc.metadata).bind Node.asString? with
  | some name => some name
  | none => taggedName f tags

/-- The name of a field as a property; a field may be left out. -/
def propertyName (r : Resolver) (f : Field) : Option String :=
  fieldName r.options.nameTag.toList f

/-- The name of a field as a parameter; a field may be left out. -/
def paramName (r : Resolver) (f : Field) : Option String :=
  fieldName (r.options.paramTags ++ r.options.nameTag.toList) f

/-- Whether a field adds to the struct it stands in instead of being a property. -/
def isSpliced (f : Field) : Bool := f.embedded && f.tag.isEmpty

/-- The schema of a builtin scalar; a declared one lists its constants. -/
def scalarSchema (r : Resolver) (t : TypeRef) (kind : ScalarKind) : Schema :=
  let constants := if t.key.isSome then (r.graph.constants t).map EnumValue.value else []
  .scalar { ScalarSchema.plain kind with constants := constants, fallback := constants.head? }

section Shape

variable {m : Type → Type} [Monad m]

/-- How types met on the way are resolved, inline or not. -/
abbrev Next (m : Type → Type) := TypeRef → Bool → m Schema

/-- The schema of a declaration that was looked up. -/
def resolveName (next : Next m) (doc shown : String) (found : Option TypeRef) : m Schema :=
  match found with
  | some t => do return (← next t false).describe doc
  | none => return .hardError s!"can't find type '{shown}'"

/-- The schema of a type expression that stands for the given type. -/
def exprSchema (r : Resolver) (next : Next m) (t : TypeRef) : TypeExpr → m Schema
  | .array element => do
    let items ← exprSchema r next (.anonymous t.file element) element
    return (Schema.array items none).describe t.doc.full
  | .pointer target => exprSchema r next t target
  | .scalar kind => return (r.scalarSchema t kind).describe t.doc.full
  | .named name => resolveName next t.doc.full name (r.graph.resolveInFile t.file none name)
  | .qualified package name =>
    resolveName next t.doc.full (TypePath.join package name)
      (r.graph.resolveInFile t.file (some package) name)
  | .interface => return (Schema.any none).describe t.doc.full
  | .func =>
    let shown := (t.key.or t.name).getD "func"
    return .softError s!"'{shown}' is a function and has no schema"

/-- The properties that an embedded member contributes to a composition. A reference is looked
through. -/
def projection (r : Resolver) (next : Next m) (t : TypeRef) (s : Schema) :
    m (List (Member Schema)) :=
  match s with
  | .ref _ =>
    match r.definition? t with
    | some d => do return (← next d true).properties?.getD []
    | none => return []
  | other => return other.properties?.getD []

/-- The parts of a struct: its properties, and the members of a composition with theirs. -/
structure Parts where
  properties : List (Member Schema)
  members : List Schema
  flattened : List (Member Schema)

/-- Adds a field of the given type and schema. -/
def placeField (r : Resolver) (next : Next m) (parts : Parts) (f : Field) (t : TypeRef)
    (s : Schema) : m Parts :=
  if isSpliced f then
    match s with
    | .object properties _ _ _ => return { parts with properties := parts.properties ++ properties }
    | other => do
      let projected ← projection r next t other
      return { parts with
        members := parts.members ++ [other], flattened := parts.flattened ++ projected }
  else
    match r.propertyName f with
    | some name =>
      let property : Member Schema := ⟨name, s, f.doc.metadata, f.tag⟩
      return { parts with properties := parts.properties ++ [property] }
    | none => return parts

/-- Adds a field of a struct in the given file. -/
def addField (r : Resolver) (next : Next m) (file : String) (parts : Parts) (f : Field) :
    m Parts := do
  let t := f.ref file
  let s ← exprSchema r next t f.type
  placeField r next parts f t s

/-- The schema of the parts of a struct. -/
def Parts.toSchema (parts : Parts) (doc : String) : Schema :=
  let object := (Schema.object parts.properties none none []).describe doc
  if parts.members.isEmpty then object
  else .allOf (parts.members ++ [object]) (parts.flattened ++ parts.properties)

/-- The schema of a type's shape. -/
def shapeSchema (r : Resolver) (next : Next m) (t : TypeRef) : m Schema :=
  match t.shape with
  | .expr type => exprSchema r next t type
  | .struct fields => do
    let parts ← fields.foldlM (addField r next t.file) ⟨[], [], []⟩
    return parts.toSchema t.doc.full

end Shape

/-- Enters a type: it becomes a reference, or is cut off, or gets its schema from its shape. -/
def enterType (r : Resolver) (shape : TypeRef → Resolving Schema) (t : TypeRef) (inline : Bool) :
    Resolving Schema :=
  match t.key with
  | none => shape t
  | some key =>
    match if inline then none else r.target? key with
    | some target => return .ref target
    | none => do
      if r.options.recursionBound ≤ (← get).count key then
        return .softError s!"recursive reference on '{key}'"
      else
        modify (Visits.enter key)
        let s ← shape t
        modify (Visits.leave key)
        return s

/-- The schema of a type, on chains of at most as many declared types as there is fuel. -/
def typeSchemaWithin (r : Resolver) : Nat → TypeRef → Bool → Resolving Schema
  | 0 => enterType r fun _ => return .softError "types nest too deep"
  | fuel + 1 => enterType r (shapeSchema r (typeSchemaWithin r fuel))

/-- On a chain every key occurs at most as often as the recursion bound allows, so no chain is
longer than this. -/
def longestChain (r : Resolver) : Nat := r.options.recursionBound * (r.graph.types.length + 1) + 1

/-- The schema of a type, in its inline form if that is asked for. -/
def typeSchema (r : Resolver) (t : TypeRef) (inline : Bool) : Resolving Schema :=
  typeSchemaWithin r r.longestChain t inline

/-- The schema of a plain value, of which it is also the default and an example. -/
def plainSchema (kind : ScalarKind) (node : Node) : Schema :=
  .scalar { ScalarSchema.plain kind with fallback := some node, sample := some node }

mutual

/-- The schema of a value. Data has a schema of its own shape with the data as an example, and of a
list the first item counts; what is neither data nor a type is an error. -/
def valueSchema (r : Resolver) (inline : Bool) : Value → Resolving Schema
  | .type t => r.typeSchema t inline
  | .schema s => return s
  | .map entries => do
    let properties ← entrySchemas r entries
    return .object properties none (Value.map entries).toNode? []
  | .list [] => return .array (.any none) none
  | .list (first :: _) => do return .array (← valueSchema r false first) none
  | .null => return .any none
  | .bool b => return plainSchema .boolean (.bool b)
  | .number n => return plainSchema (if n.isInteger then .integer else .number) (.number n)
  | .string s => return plainSchema .string (.string s)
  | .missing m => return .hardError m.message
  | .package name _ => return .hardError s!"package '{name}' is not a schema"
  | .function f => return .hardError s!"function '{f.name}' is not a schema"

def entrySchemas (r : Resolver) : List (String × Value) → Resolving (List (Member Schema))
  | [] => return []
  | (key, value) :: rest => do
    let s ← valueSchema r false value
    let others ← entrySchemas r rest
    return ⟨key, s, [], []⟩ :: others

end

end Resolver

end SchemaWeave
