import SchemaWeave.Complete.Host
import SchemaWeave.Complete.Scope

/-!
What a pass looks at, and what it records: failed directives, the number of schemas with hard
errors, and the calls of the host.
-/

namespace SchemaWeave

/-- A directive that failed: the keys that lead to it, joined by points, and why. -/
structure Diagnostic where
  path : String
  message : String
  deriving DecidableEq, Repr

/-- What documents are completed with. -/
structure Environment where
  graph : Graph
  host : Host
  options : ResolverOptions
  imports : Dictionary

/-- What a pass looks at: the environment, with the types that the document registers. -/
structure Setting where
  resolver : Resolver
  imports : Dictionary
  host : Host

/-- What a pass has recorded. -/
structure Progress where
  visits : Visits
  diagnostics : List Diagnostic
  inlineErrors : Nat
  calls : List HostCall

def Progress.start : Progress := ⟨[], [], 0, []⟩

abbrev Pass := StateM Progress

/-- The setting before anything is registered. -/
def Environment.setting (e : Environment) : Setting :=
  ⟨.new e.graph e.options, e.imports, e.host⟩

namespace Setting

def resolve {α : Type} (action : Resolving α) : Pass α := fun p =>
  let (found, visits) := action p.visits
  (found, { p with visits })

/-- The value of an expression in a file. -/
def evaluate (s : Setting) (code : String) (file : Option String) : Pass (Except ExprError Value) :=
  resolve (Expr.evalText (fileScope s.resolver s.imports file) code)

/-- Puts a schema into the document; one with a hard error is counted. -/
def render (schema : Schema) : Pass Node := do
  if schema.containsHardError then
    modify fun p => { p with inlineErrors := p.inlineErrors + 1 }
  return schema.toNode

mutual

/-- Puts a value into the document. Types become their schemas, and what is neither data nor a type
becomes an error. -/
def lower (s : Setting) : Value → Pass Node
  | .map entries => do return .map (← lowerEntries s entries)
  | .list items => do return .list (← lowerItems s items)
  | .schema schema => render schema
  | .null => return .null
  | .bool b => return .bool b
  | .number n => return .number n
  | .string text => return .string text
  | .type t => do render (← resolve (s.resolver.valueSchema false (.type t)))
  | .package name path => do
    render (← resolve (s.resolver.valueSchema false (.package name path)))
  | .function f => do render (← resolve (s.resolver.valueSchema false (.function f)))
  | .missing m => do render (← resolve (s.resolver.valueSchema false (.missing m)))

def lowerItems (s : Setting) : List Value → Pass (List Node)
  | [] => return []
  | item :: rest => do
    let node ← lower s item
    return node :: (← lowerItems s rest)

def lowerEntries (s : Setting) : List (String × Value) → Pass Entries
  | [] => return []
  | (key, value) :: rest => do
    let node ← lower s value
    return (key, node) :: (← lowerEntries s rest)

end

/-- Records a failed directive; also what stands in its place. -/
def fail (crumbs : List String) (key message : String) : Pass Node := do
  let path := ".".intercalate (crumbs ++ [key])
  modify fun p => { p with diagnostics := p.diagnostics ++ [⟨path, message⟩] }
  return .map [("error", .string message)]

/-- Asks the host. -/
def askHost (s : Setting) (call : HostCall) : Pass (Except HostError Node) := fun p =>
  (s.host p.calls call, { p with calls := p.calls ++ [call] })

end Setting

end SchemaWeave
