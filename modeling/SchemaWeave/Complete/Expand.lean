import SchemaWeave.Complete.Directive
import SchemaWeave.Complete.Pass
import SchemaWeave.Document.Path

/-!
A host directive holds a type path, which expands to a type document, or an expression, which is
evaluated, or any other value, in which directives are expanded; the result goes through the host,
and a map that comes back takes the place of the directive among its neighbours. An expression
directive is stored under its name without the mark. A directive that fails leaves its message in
its place.
-/

namespace SchemaWeave.Setting

/-- Evaluates a text if it is an expression. A candidate counts only if it has a value; an
expression that is marked has to have one. -/
def expandText (s : Setting) (text : String) (file : Option String) :
    Pass (Except ExprError (Option Node)) :=
  let form := ExpressionForm.detect text
  match form.code? with
  | none => return .ok none
  | some code => do
    match ← s.evaluate code file with
    | .ok value =>
      if form.isMarked || !value.isNullish then return .ok (some (← s.lower value))
      else return .ok none
    | .error e => if form.isMarked then return .error e else return .ok none

/-- The value of an expression directive. -/
def expressionDirective (s : Setting) (key : String) (value : Node) (file : Option String)
    (crumbs : List String) : Pass Node :=
  match value with
  | .string code => do
    match ← s.evaluate code file with
    | .ok v => s.lower v
    | .error e => fail crumbs key e.message
  | other =>
    fail crumbs key s!"value of '{key}' must be a string expression, found {other.kindName}"

/-- A text of metadata, expanded in a file. -/
def metadataText (s : Setting) (file : String) (crumbs : List String) (key text : String) :
    Pass Node := do
  match ← s.expandText text (some file) with
  | .ok (some node) => return node
  | .ok none => return .string text
  | .error e => fail crumbs key e.message

mutual

/-- The metadata of a declaration in a file: expression directives, and expressions among the texts,
are evaluated at every depth of its maps. -/
def expandMetadata (s : Setting) (file : String) (crumbs : List String) :
    List (String × Node) → Pass Entries
  | [] => return []
  | (key, value) :: rest => do
    let entry ← match expressionKey? key with
      | some name => do
        let node ← s.expressionDirective key value (some file) crumbs
        pure (name, node)
      | none => do
        let node ← expandMetadataNode s file crumbs key value
        pure (key, node)
    let others ← expandMetadata s file crumbs rest
    return entry :: others

def expandMetadataNode (s : Setting) (file : String) (crumbs : List String) (key : String) :
    Node → Pass Node
  | .string text => s.metadataText file crumbs key text
  | .map entries => do return .map (← expandMetadata s file (crumbs ++ [key]) entries)
  | .null => return .null
  | .bool b => return .bool b
  | .number n => return .number n
  | .list items => return .list items

end

/-- The reference target of a place where a schema is defined. -/
def definitionTarget? (crumbs : List String) : Option String :=
  let pattern := definitionPattern.dropLast
  if crumbs.length = pattern.length ∧ (List.zipWith keyMatches pattern crumbs).all id then
    some ("#/" ++ "/".intercalate crumbs)
  else none

/-- Whether a type is defined at this place. -/
def isDefinedAt (s : Setting) (t : TypeRef) (crumbs : List String) : Bool :=
  match t.key, definitionTarget? crumbs with
  | some key, some target => s.resolver.target? key == some target
  | _, _ => false

/-- The document of a declared type or method: its documentation, its expanded metadata, and the
schema of a type, which is inline where the type is defined. -/
def typeDocument (s : Setting) (t : TypeRef) (crumbs : List String) : Pass Node := do
  let metadata ← s.expandMetadata t.file (crumbs ++ ["meta"]) t.doc.metadata
  let schema ← if t.isFunc then pure [] else do
    let schema ← resolve (s.resolver.typeSchema t (s.isDefinedAt t crumbs))
    let node ← render schema
    pure [("schema", node)]
  return .map ([("doc", .string t.doc.full), ("summary", .string t.doc.summary),
    ("description", .string t.doc.description), ("meta", .map metadata)] ++ schema ++
    [("x-type-doc", .bool true)])

/-- What the text of a host directive expands to. -/
def directiveText (s : Setting) (text : String) (crumbs : List String) :
    Pass (Except ExprError Node) :=
  let graph := s.resolver.graph
  let path := graph.normalize text
  if graph.ownsPath path then
    match graph.resolvePath path with
    | some t => do return .ok (← s.typeDocument t crumbs)
    | none => return .ok (.map [(text, .string s!"error, can't resolve path: {text}")])
  else do
    match ← s.expandText text none with
    | .ok found => return .ok (found.getD (.string text))
    | .error e => return .error e

/-- What takes the place of a host directive whose value is expanded. -/
def hostReply (s : Setting) (crumbs : List String) (key : String) (value : Node) :
    Pass Entries := do
  match ← s.askHost ⟨key, value, crumbs⟩ with
  | .ok (.map reply) => return reply
  | .ok reply => return [(key, reply)]
  | .error e => return [(key, ← fail crumbs key e.message)]

mutual

/-- Expands the entries of a map that stands at the given place. -/
def expandEntries (s : Setting) (crumbs : List String) : List (String × Node) → Pass Entries
  | [] => return []
  | (key, value) :: rest => do
    let here ←
      if isHostDirective key then expandHostDirective s crumbs key value
      else
        match expressionKey? key with
        | some name => do
          let node ← s.expressionDirective key value none crumbs
          pure [(name, node)]
        | none => do
          let node ← expandNode s (crumbs ++ [key]) value
          pure [(key, node)]
    let others ← expandEntries s crumbs rest
    return here ++ others

/-- Expands a host directive of a map at the given place. -/
def expandHostDirective (s : Setting) (crumbs : List String) (key : String) : Node → Pass Entries
  | .string text => do
    match ← s.directiveText text crumbs with
    | .ok value => s.hostReply crumbs key value
    | .error e => return [(key, ← fail crumbs key e.message)]
  | .map entries => do
    let inner ← expandEntries s (crumbs ++ [key]) entries
    s.hostReply crumbs key (.map inner)
  | .list items => do
    let inner ← expandItems s (crumbs ++ [key]) 0 items
    s.hostReply crumbs key (.list inner)
  | .null => s.hostReply crumbs key .null
  | .bool b => s.hostReply crumbs key (.bool b)
  | .number n => s.hostReply crumbs key (.number n)

/-- Expands the directives in a node at the given place. -/
def expandNode (s : Setting) (crumbs : List String) : Node → Pass Node
  | .map entries => do return .map (← expandEntries s crumbs entries)
  | .list items => do return .list (← expandItems s crumbs 0 items)
  | .null => return .null
  | .bool b => return .bool b
  | .number n => return .number n
  | .string text => return .string text

/-- Expands list items, the first of which has the given index. -/
def expandItems (s : Setting) (crumbs : List String) (index : Nat) : List Node → Pass (List Node)
  | [] => return []
  | item :: rest => do
    let node ← expandNode s (crumbs ++ [Nat.repr index]) item
    let others ← expandItems s crumbs (index + 1) rest
    return node :: others

end

end SchemaWeave.Setting
