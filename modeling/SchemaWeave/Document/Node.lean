import SchemaWeave.Number

/-!
A document is a tree whose maps keep their entries in order and may hold a key more than once; look
up takes the first entry with a key. Text conversion never reorders entries.
-/

namespace SchemaWeave

/-- A node of a document. -/
inductive Node where
  | null
  | bool (value : Bool)
  | number (value : Number)
  | string (value : String)
  | list (items : List Node)
  | map (entries : List (String × Node))
  deriving Inhabited

/-- The entries of a map, in order. -/
abbrev Entries := List (String × Node)

namespace Node

def int (n : Int) : Node := .number (.int n)

/-- The name of a node's kind, for messages. -/
def kindName : Node → String
  | .null => "null"
  | .bool _ => "boolean"
  | .number _ => "number"
  | .string _ => "string"
  | .map _ => "map"
  | .list _ => "list"

mutual

/-- Equality of documents: entries in order, numbers by value. -/
def same : Node → Node → Bool
  | .null, .null => true
  | .bool a, .bool b => a == b
  | .number a, .number b => a.same b
  | .string a, .string b => a == b
  | .list a, .list b => sameItems a b
  | .map a, .map b => sameEntries a b
  | _, _ => false

def sameItems : List Node → List Node → Bool
  | [], [] => true
  | a :: as, b :: bs => same a b && sameItems as bs
  | _, _ => false

def sameEntries : List (String × Node) → List (String × Node) → Bool
  | [], [] => true
  | (k, a) :: as, (l, b) :: bs => k == l && same a b && sameEntries as bs
  | _, _ => false

end

end Node

namespace Entries

/-- The value of the first entry with this key. -/
def get? (key : String) (es : Entries) : Option Node :=
  (es.find? (·.1 == key)).map (·.2)

def contains (key : String) (es : Entries) : Bool := es.any (·.1 == key)

def keys (es : Entries) : List String := es.map (·.1)

/-- Changes the value of the first entry with this key. -/
def modify (key : String) (f : Node → Node) : Entries → Entries
  | [] => []
  | (k, v) :: rest => if k == key then (k, f v) :: rest else (k, v) :: modify key f rest

/-- Puts the value in the place of the first entry with this key, or at the end. -/
def insert (key : String) (value : Node) (es : Entries) : Entries :=
  if contains key es then modify key (fun _ => value) es else es ++ [(key, value)]

/-- Drops the first entry with this key. -/
def erase (key : String) : Entries → Entries
  | [] => []
  | (k, v) :: rest => if k == key then rest else (k, v) :: erase key rest

end Entries

namespace Node

def isNull : Node → Bool
  | .null => true
  | _ => false

def asString? : Node → Option String
  | .string s => some s
  | _ => none

def asBool? : Node → Option Bool
  | .bool b => some b
  | _ => none

def asMap? : Node → Option Entries
  | .map es => some es
  | _ => none

/-- The entries of a node that has to be a map; null counts as a map without entries. -/
def entries? : Node → Option Entries
  | .map es => some es
  | .null => some []
  | _ => none

def asList? : Node → Option (List Node)
  | .list items => some items
  | _ => none

/-- The value under a key, when the node is a map that has it. -/
def get? (key : String) (n : Node) : Option Node := n.asMap?.bind (Entries.get? key)

end Node

end SchemaWeave
