import SchemaWeave.Dictionary
import SchemaWeave.ScalarKind

/-!
The shapes that a resolved type or value can take. A reference that cannot be followed, and a type
that contains itself too deep, are errors inside the tree, so that one of them does not spoil the
rest.
-/

namespace SchemaWeave

/-- How an error inside a schema is reported: as one, or as a remark. -/
inductive Severity where
  | hard
  | soft
  deriving DecidableEq, Repr

/-- A named part of an object, with the metadata of its documentation and its field tag. -/
structure Member (α : Type) where
  name : String
  schema : α
  metadata : Entries
  tag : Dictionary

/-- A call that was chained to a schema. -/
structure Modifier where
  name : String
  arguments : List Node

structure ScalarSchema where
  kind : ScalarKind
  description : Option String
  constants : List Node
  fallback : Option Node
  sample : Option Node

def ScalarSchema.plain (kind : ScalarKind) : ScalarSchema := ⟨kind, none, [], none, none⟩

/-- A schema. The members of a composition come with the list of all properties that they have. -/
inductive Schema where
  | object (properties : List (Member Schema)) (description : Option String)
      (sample : Option Node) (modifiers : List Modifier)
  | array (items : Schema) (description : Option String)
  | scalar (s : ScalarSchema)
  | ref (target : String)
  | allOf (members : List Schema) (flattened : List (Member Schema))
  | any (description : Option String)
  | error (message : String) (severity : Severity)
  deriving Inhabited

namespace Schema

def hardError (message : String) : Schema := .error message .hard

def softError (message : String) : Schema := .error message .soft

def isError : Schema → Bool
  | .error .. => true
  | _ => false

/-- Attaches a description where the shape has room for one; an empty text changes nothing. -/
def describe (text : String) (s : Schema) : Schema :=
  if text.isEmpty then s
  else
    match s with
    | .object properties _ sample modifiers => .object properties (some text) sample modifiers
    | .array items _ => .array items (some text)
    | .scalar s => .scalar { s with description := some text }
    | .any _ => .any (some text)
    | .ref target => .ref target
    | .allOf members flattened => .allOf members flattened
    | .error message severity => .error message severity

/-- Records a chained call; only objects keep it. -/
def modify (m : Modifier) : Schema → Schema
  | .object properties description sample modifiers =>
    .object properties description sample (modifiers ++ [m])
  | other => other

/-- The properties that a schema exposes. -/
def properties? : Schema → Option (List (Member Schema))
  | .object properties _ _ _ => some properties
  | .allOf _ flattened => some flattened
  | _ => none

mutual

/-- Whether an error of a severity that counts stands at the root, in a property, in the items or in
a member. The list of a composition's properties is not looked into. -/
def hasError (counts : Severity → Bool) : Schema → Bool
  | .error _ severity => counts severity
  | .object properties _ _ _ => memberHasError counts properties
  | .array items _ => hasError counts items
  | .allOf members _ => anyHasError counts members
  | .scalar _ => false
  | .ref _ => false
  | .any _ => false

def memberHasError (counts : Severity → Bool) : List (Member Schema) → Bool
  | [] => false
  | ⟨_, schema, _, _⟩ :: rest => hasError counts schema || memberHasError counts rest

def anyHasError (counts : Severity → Bool) : List Schema → Bool
  | [] => false
  | schema :: rest => hasError counts schema || anyHasError counts rest

end

/-- Whether an error is found. -/
def containsError (s : Schema) : Bool := s.hasError fun _ => true

/-- Whether a hard error is found. -/
def containsHardError (s : Schema) : Bool := s.hasError (· == .hard)

end Schema

end SchemaWeave
