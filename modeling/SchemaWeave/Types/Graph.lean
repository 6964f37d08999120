import SchemaWeave.Comment.Basic
import SchemaWeave.Dictionary
import SchemaWeave.Text.Lines
import SchemaWeave.Types.Path
import SchemaWeave.Types.TypeExpr

/-!
Declarations of types and methods, by keys of the form `package.Name` and `package.Type.Method`, and
the files they stand in. A file belongs to a package and has a table of imports, through which the
identifiers inside a type are resolved. Types without a declaration, such as those of fields, have
no key.
-/

namespace SchemaWeave

/-- A member of a struct. An embedded member carries the bare name of its type. -/
structure Field where
  name : String
  type : TypeExpr
  doc : Doc
  tag : Dictionary
  embedded : Bool

/-- What a type is made of. -/
inductive Shape where
  | struct (fields : List Field)
  | expr (type : TypeExpr)

/-- A type that can be resolved: its key and name if it is declared, the file in whose scope it
stands, and its documentation. -/
structure TypeRef where
  key : Option String
  name : Option String
  file : String
  doc : Doc
  shape : Shape

/-- A named constant of a type. -/
structure EnumValue where
  name : String
  value : Node

/-- A declared type or method. -/
structure Declaration where
  key : String
  name : String
  file : String
  doc : Doc
  shape : Shape
  constants : List EnumValue

def Declaration.ref (d : Declaration) : TypeRef := ⟨some d.key, some d.name, d.file, d.doc, d.shape⟩

namespace TypeRef

/-- A type that stands inside another one. -/
def anonymous (file : String) (type : TypeExpr) : TypeRef := ⟨none, none, file, .empty, .expr type⟩

def isArray (t : TypeRef) : Bool :=
  match t.shape with
  | .expr (.array _) => true
  | _ => false

def isPointer (t : TypeRef) : Bool :=
  match t.shape with
  | .expr (.pointer _) => true
  | _ => false

def isStruct (t : TypeRef) : Bool :=
  match t.shape with
  | .struct _ => true
  | _ => false

def isInterface (t : TypeRef) : Bool :=
  match t.shape with
  | .expr .interface => true
  | _ => false

def isFunc (t : TypeRef) : Bool :=
  match t.shape with
  | .expr .func => true
  | _ => false

/-- A declared type that is one of the builtin scalars. -/
def isNamedScalar (t : TypeRef) : Bool :=
  match t.key, t.shape with
  | some _, .expr (.scalar _) => true
  | _, _ => false

/-- The members of a struct. -/
def fields (t : TypeRef) : List Field :=
  match t.shape with
  | .struct fields => fields
  | _ => []

/-- The package that a key names. -/
def package? (t : TypeRef) : Option String := t.key.map fun key => (TypePath.split key).1

end TypeRef

/-- The type of a field of a type that stands in the given file. -/
def Field.ref (f : Field) (file : String) : TypeRef := ⟨none, none, file, f.doc, .expr f.type⟩

/-- The package and the imports of a file. -/
structure SourceFile where
  package : String
  imports : Dictionary

/-- All declarations. Paths that begin with `./` are relative to the root; of several files or
methods under one name the first entry counts. -/
structure Graph where
  root : String
  packages : List String
  files : List (String × SourceFile)
  types : List Declaration
  methods : List Declaration

namespace Graph

def empty : Graph := ⟨"", [], [], [], []⟩

/-- The type with a key. -/
def type? (g : Graph) (key : String) : Option Declaration := g.types.find? (·.key == key)

/-- The method with a key. -/
def methodAt? (g : Graph) (key : String) : Option Declaration := g.methods.find? (·.key == key)

/-- The declaration of a type in a package. -/
def lookup (g : Graph) (package name : String) : Option TypeRef :=
  (g.type? (TypePath.join package name)).map Declaration.ref

def hasPackage (g : Graph) (package : String) : Bool := g.packages.contains package

/-- The package that a file belongs to. -/
def packageOf? (g : Graph) (file : String) : Option String :=
  (g.files.lookup file).map SourceFile.package

def imports (g : Graph) (file : String) : Dictionary :=
  ((g.files.lookup file).map SourceFile.imports).getD []

/-- The declaration that an identifier means in a file: through an import, or in the package of the
file. -/
def resolveInFile (g : Graph) (file : String) (qualifier : Option String) (name : String) :
    Option TypeRef := do
  let package ← match qualifier with
    | some name => Dictionary.get? name (g.imports file)
    | none => g.packageOf? file
  g.lookup package name

/-- The absolute form of a path. -/
def normalize (g : Graph) (path : String) : String :=
  match path.toList with
  | '.' :: '/' :: rest =>
    if g.root.isEmpty then path else g.root ++ "/" ++ String.ofList rest
  | _ => path

/-- The declaration that a path means. -/
def resolvePath (g : Graph) (path : String) : Option TypeRef :=
  let (package, member) := TypePath.split (g.normalize path)
  if member.isEmpty then none
  else if member.toList.contains '.' then
    (g.methodAt? (TypePath.join package member)).map Declaration.ref
  else g.lookup package member

/-- Whether a path has the form of one inside this graph, whether or not it can be resolved. -/
def ownsPath (g : Graph) (path : String) : Bool :=
  let (package, member) := TypePath.split (g.normalize path)
  !member.isEmpty && !package.isEmpty &&
    (g.hasPackage package || (!g.root.isEmpty && package.startsWith (g.root ++ "/")))

/-- The constants of a declared type, in order. -/
def constants (g : Graph) (t : TypeRef) : List EnumValue :=
  match t.key.bind g.type? with
  | some d => d.constants
  | none => []

/-- A method of a declared type. -/
def method? (g : Graph) (t : TypeRef) (name : String) : Option TypeRef := do
  let key ← t.key
  (← g.methodAt? (TypePath.join key name)).ref

/-- A member of a type: a field that is not embedded, or else a method. -/
def member? (g : Graph) (t : TypeRef) (name : String) : Option TypeRef :=
  match t.fields.find? fun f => f.name == name && !f.embedded with
  | some f => some (f.ref t.file)
  | none => g.method? t name

end Graph

end SchemaWeave
