import SchemaWeave.Comment.Parse
import SchemaWeave.Types.Graph
import SchemaWeave.Types.Manifest
import SchemaWeave.Types.Tag

/-!
Packages are taken in order; within a package its files come first, then its types and its methods.
The path of a package stands for a file of it as well, for declarations that name none. Two types
must not have one key; of methods with one key, and of files with one path, the last counts.
-/

namespace SchemaWeave

/-- Why a manifest does not describe a type graph. -/
inductive ManifestError where
  | unreadable (fault : Yaml.Fault)
  | invalidType (text location reason : String)
  | duplicateType (key : String)
  | documentation (location : String) (cause : DocError Yaml.Fault)
  deriving DecidableEq, Repr

def ManifestError.message : ManifestError → String
  | .unreadable fault => s!"manifest parse error: yaml: {fault.message}"
  | .invalidType text location reason =>
    s!"invalid type expression '{text}' in {location}: {reason}"
  | .duplicateType key => s!"duplicate declaration of '{key}'"
  | .documentation location cause => s!"documentation of '{location}': {cause.message}"

namespace Manifest

/-- Parses documentation that belongs to a declaration. -/
def loadDoc (text location : String) : Except ManifestError Doc :=
  (Doc.parse text).mapError (.documentation location)

/-- Parses a type expression that belongs to a declaration. -/
def loadType (text location : String) : Except ManifestError TypeExpr :=
  (TypeExpr.parse text).mapError fun (fault, part) =>
    .invalidType (String.ofList part) location fault.reason

/-- A field of the declaration with a key. Without a name it is embedded, and its type has to have
one. -/
def FieldEntry.load (owner : String) (f : FieldEntry) : Except ManifestError Field := do
  let location := TypePath.join owner (f.name.getD f.type)
  let type ← loadType f.type location
  let name ← match f.name, TypeExpr.bareName? f.type with
    | some name, _ => .ok name
    | none, some name => .ok name
    | none, none => .error (.invalidType f.type location "embedded fields must name a type")
  let doc ← loadDoc f.doc location
  .ok ⟨name, type, doc, Tag.parse f.tag, f.embedded || f.name.isNone⟩

/-- What a type is made of: its fields, or the type it stands for; without either it is a struct
without fields. -/
def TypeEntry.loadShape (key : String) (t : TypeEntry) : Except ManifestError Shape :=
  match t.fields, t.type with
  | some fields, _ => do .ok (.struct (← fields.mapM (FieldEntry.load key)))
  | none, some text => do .ok (.expr (← loadType text key))
  | none, none => .ok (.struct [])

/-- Adds a type of a package. -/
def TypeEntry.load (package : String) (g : Graph) (t : TypeEntry) : Except ManifestError Graph := do
  let key := TypePath.join package t.name
  if (g.type? key).isSome then .error (.duplicateType key)
  else
    let shape ← t.loadShape key
    let doc ← loadDoc t.doc key
    let declaration : Declaration :=
      { key := key
        name := t.name
        file := t.file.getD package
        doc := doc
        shape := shape
        constants := t.constants.map fun c => ⟨c.name, c.value⟩ }
    .ok { g with types := g.types ++ [declaration] }

/-- Adds a method of a package. -/
def MethodEntry.load (package : String) (g : Graph) (m : MethodEntry) :
    Except ManifestError Graph := do
  let key := TypePath.join (TypePath.join package m.receiver) m.name
  let doc ← loadDoc m.doc key
  let declaration : Declaration := ⟨key, m.name, m.file.getD package, doc, .expr .func, []⟩
  .ok { g with methods := declaration :: g.methods }

/-- Adds the files of a package. -/
def addFiles (package : String) (files : List FileEntry) (g : Graph) : Graph :=
  let own := if (g.files.lookup package).isSome then [] else [(package, ⟨package, []⟩)]
  let listed := files.map fun f => (f.path, (⟨package, f.imports⟩ : SourceFile))
  { g with files := listed.reverse ++ own ++ g.files }

/-- Adds a package. -/
def PackageEntry.load (g : Graph) (p : PackageEntry) : Except ManifestError Graph := do
  let package := TypePath.dropSlashes p.path
  let g := addFiles package p.files { g with packages := g.packages ++ [package] }
  let g ← p.types.foldlM (TypeEntry.load package) g
  p.methods.foldlM (MethodEntry.load package) g

/-- The type graph of a manifest. -/
def load (m : Manifest) : Except ManifestError Graph :=
  m.packages.foldlM PackageEntry.load { Graph.empty with root := TypePath.dropSlashes m.root }

end Manifest

/-- The type graph that the text of a manifest describes. -/
def Graph.ofYaml (text : String) : Except ManifestError Graph := do
  (← (Manifest.ofYaml text).mapError .unreadable).load

end SchemaWeave
