import SchemaWeave.Complete.Expand
import SchemaWeave.Document.Merge
import SchemaWeave.Yaml.Reader

/-!
Types that the document defines are registered first, so that they are references everywhere else.
Then directives are expanded, and at last duplicate keys are merged throughout.
-/

namespace SchemaWeave

/-- A completed document, with what went wrong and what the host was asked. -/
structure Completed where
  document : Node
  diagnostics : List Diagnostic
  inlineErrors : Nat
  calls : List HostCall

/-- Whether a directive failed or a schema holds a hard error. -/
def Completed.hasErrors (c : Completed) : Bool :=
  !c.diagnostics.isEmpty || decide (0 < c.inlineErrors)

/-- Why a document cannot be completed at all. -/
inductive DocumentError where
  | unreadable (fault : Yaml.Fault)
  | notAMap (found : String)
  deriving DecidableEq, Repr

def DocumentError.message : DocumentError → String
  | .unreadable fault => s!"document error: yaml: {fault.message}"
  | .notAMap found => s!"expected a map at the document root, found {found}"

/-- Registers the type that a definition of a document names. -/
def Resolver.registerDefinition (r : Resolver) : List String × Node → Resolver
  | (crumbs, value) =>
    match value with
    | .string text =>
      let path := r.graph.normalize text
      match (if r.graph.ownsPath path then r.graph.resolvePath path else none).bind TypeRef.key with
      | some key => r.register key ("/".intercalate crumbs)
      | none => r
    | _ => r

/-- Registers every type that a document defines. -/
def Resolver.registerAll (r : Resolver) (root : Entries) : Resolver :=
  (Entries.select definitionPattern root).foldl registerDefinition r

namespace Environment

/-- The setting of a pass over a document with the given root. -/
def settingFor (e : Environment) (root : Entries) : Setting :=
  { e.setting with resolver := e.setting.resolver.registerAll root }

/-- Completes a document with the given root. -/
def completeMap (e : Environment) (root : Entries) : Completed :=
  let (expanded, p) := ((e.settingFor root).expandEntries [] root).run .start
  ⟨.map (Entries.mergeDuplicates expanded), p.diagnostics, p.inlineErrors, p.calls⟩

/-- Completes a document, whose root has to be a map. -/
def complete (e : Environment) : Node → Except DocumentError Completed
  | .map root => .ok (e.completeMap root)
  | other => .error (.notAMap other.kindName)

/-- Completes the document that a YAML text holds. -/
def completeText (e : Environment) (text : String) : Except DocumentError Completed := do
  e.complete (← (Node.ofYaml text).mapError .unreadable)

/-- The value of an expression as a document, in the scope of a file if one is given. -/
def evaluate (e : Environment) (code : String) (file : Option String) : Except ExprError Node :=
  let (result, _) := (do
    match ← e.setting.evaluate code file with
    | .ok v => return .ok (← e.setting.lower v)
    | .error error => return .error error : Pass (Except ExprError Node)).run .start
  result

/-- The inline schema of the type at a path, if there is one. -/
def typeSchema (e : Environment) (path : String) : Option Node :=
  (e.graph.resolvePath path).map fun t => ((e.setting.resolver.typeSchema t true).run []).1.toNode

end Environment

end SchemaWeave
