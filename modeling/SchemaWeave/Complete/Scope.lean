import SchemaWeave.Schema.Params

/-!
A free name means, in this order, a package that the file imports, a type of the file's own package,
or a package of the configured imports.
-/

namespace SchemaWeave

/-- What a free name means. -/
def Graph.resolveName (graph : Graph) (imports : Dictionary) (file : Option String)
    (name : String) : Value :=
  let inFile : Option Value := do
    let file ← file
    match Dictionary.get? name (graph.imports file), graph.resolveInFile file none name with
    | some path, _ => some (.package name path)
    | none, some t => some (.type t)
    | none, none => none
  match inFile, Dictionary.get? name imports with
  | some v, _ => v
  | none, some path => .package name path
  | none, none => .missing ⟨name, file.getD "document"⟩

/-- The scope of expressions in a file, or in the document itself. -/
def fileScope (r : Resolver) (imports : Dictionary) (file : Option String) : Scope Resolving where
  graph := r.graph
  resolve name := return r.graph.resolveName imports file name
  apply := r.apply

end SchemaWeave
