import SchemaWeave.Json.Printer
import SchemaWeave.Schema.Render
import SchemaWeave.Types.Graph

/-!
What an expression can evaluate to: data, declared types and packages, schemas and functions. A name
that means nothing is a value too, so that it spoils no more than its own place.
-/

namespace SchemaWeave

/-- What can be called: the two global functions, and a modifier of a schema. -/
inductive Function where
  | schema
  | params
  | modify (target : Schema) (name : String)

namespace Function

/-- The function that a global name means. -/
def ofName? (name : String) : Option Function :=
  if name = "schema" then some .schema else if name = "params" then some .params else none

def name : Function → String
  | .schema => "schema"
  | .params => "params"
  | .modify _ name => name

end Function

/-- A name that was not found, and where it was looked for. -/
structure Missing where
  name : String
  context : String
  deriving DecidableEq, Repr

def Missing.message (m : Missing) : String := s!"can't resolve '{m.name}' in '{m.context}'"

inductive Value where
  | null
  | bool (value : Bool)
  | number (value : Number)
  | string (value : String)
  | map (entries : List (String × Value))
  | list (items : List Value)
  | type (t : TypeRef)
  | package (name path : String)
  | schema (s : Schema)
  | function (f : Function)
  | missing (m : Missing)
  deriving Inhabited

/-- The entries of a map value. Every key occurs once. -/
abbrev Bindings := List (String × Value)

namespace Bindings

/-- Puts a value in the place of its key, or at the end. -/
def insert (key : String) (value : Value) : Bindings → Bindings
  | [] => [(key, value)]
  | (k, v) :: rest => if k = key then (k, value) :: rest else (k, v) :: insert key value rest

/-- Inserts entries one after the other. -/
def insertAll (bindings : Bindings) (entries : List (String × Value)) : Bindings :=
  entries.foldl (fun bindings (key, value) => insert key value bindings) bindings

def get? (key : String) (bindings : Bindings) : Option Value := bindings.lookup key

end Bindings

namespace Value

/-- The name of a value's kind, for messages. -/
def kindName : Value → String
  | .null => "null"
  | .bool _ => "boolean"
  | .number _ => "number"
  | .string _ => "string"
  | .map _ => "object"
  | .list _ => "array"
  | .type _ => "type"
  | .package _ _ => "package"
  | .schema _ => "schema"
  | .function _ => "function"
  | .missing _ => "undefined"

/-- Whether there is nothing: null, or a name that was not found. -/
def isNullish : Value → Bool
  | .null | .missing _ => true
  | _ => false

mutual

/-- A document as a value. Of entries with one key the last counts, in the place of the first. -/
def ofNode : Node → Value
  | .null => .null
  | .bool b => .bool b
  | .number n => .number n
  | .string s => .string s
  | .map entries => .map (ofEntries [] entries)
  | .list items => .list (ofNodes items)

def ofNodes : List Node → List Value
  | [] => []
  | item :: rest => ofNode item :: ofNodes rest

def ofEntries (before : Bindings) : List (String × Node) → Bindings
  | [] => before
  | (key, node) :: rest => ofEntries (Bindings.insert key (ofNode node) before) rest

end

mutual

/-- A value as a document, if it is made of data and schemas alone. -/
def toNode? : Value → Option Node
  | .null => some .null
  | .bool b => some (.bool b)
  | .number n => some (.number n)
  | .string s => some (.string s)
  | .map entries => (toEntries? entries).map .map
  | .list items => (toNodes? items).map .list
  | .schema s => some s.toNode
  | .type _ => none
  | .package _ _ => none
  | .function _ => none
  | .missing _ => none

def toNodes? : List Value → Option (List Node)
  | [] => some []
  | item :: rest => do
    let node ← toNode? item
    let nodes ← toNodes? rest
    some (node :: nodes)

def toEntries? : List (String × Value) → Option Entries
  | [] => some []
  | (key, value) :: rest => do
    let node ← toNode? value
    let entries ← toEntries? rest
    some ((key, node) :: entries)

end

/-- The compact JSON text of data; other values have none. -/
def jsonText (v : Value) : String := (v.toNode?.map Node.toJson).getD ""

/-- A value as a part of a longer text. -/
def looseText : Value → String
  | .string s => s
  | .number n => String.ofList (Json.numberText n)
  | .bool b => if b then "true" else "false"
  | .null => "null"
  | .missing _ => "undefined"
  | .type t => (t.key.or t.name).getD ""
  | .package _ path => path
  | .function f => f.name
  | v => v.jsonText

/-- The sum of two numbers, which is null when it is no finite number; everything else is joined as
text. -/
def add (left right : Value) : Value :=
  match left, right with
  | .number a, .number b =>
    match a.add b with
    | some n => .number n
    | none => .null
  | _, _ => .string (left.looseText ++ right.looseText)

/-- Where members of a type are looked for, as messages name it. -/
def typeContext (t : TypeRef) : String := (t.key.or t.name).getD t.file

/-- A type that was found, or the name that was looked for. -/
def ofLookup (name context : String) (found : Option TypeRef) : Value :=
  match found with
  | some t => .type t
  | none => .missing ⟨name, context⟩

/-- A member of a value that has members; a member that is not there is a missing name. -/
def member? (graph : Graph) (name : String) : Value → Option Value
  | .type t => some (ofLookup name (typeContext t) (graph.member? t name))
  | .package _ path => some (ofLookup name path (graph.lookup path name))
  | .map entries => some ((Bindings.get? name entries).getD (.missing ⟨name, "object"⟩))
  | .schema s => some (.function (.modify s name))
  | .missing m => some (.missing ⟨name, m.context⟩)
  | _ => none

end Value

end SchemaWeave
