import SchemaWeave.Document.Node

/-!
The four kinds of scalar that a schema knows, their keywords, the builtin type names that stand for
them, and the kind of a scalar document node.
-/

namespace SchemaWeave

inductive ScalarKind where
  | integer
  | number
  | string
  | boolean
  deriving DecidableEq, Repr

namespace ScalarKind

/-- The `type` keyword of a schema of this kind. -/
def keyword : ScalarKind → String
  | .integer => "integer"
  | .number => "number"
  | .string => "string"
  | .boolean => "boolean"

/-- The builtin type names of integers. -/
def integerNames : List String :=
  ["int", "int8", "int16", "int32", "int64", "uint", "uint8", "uint16", "uint32", "uint64",
    "uintptr", "byte", "rune"]

/-- The kind that a builtin type name stands for. -/
def ofTypeName? (name : String) : Option ScalarKind :=
  if integerNames.contains name then some .integer
  else if name = "float32" ∨ name = "float64" then some .number
  else if name = "string" then some .string
  else if name = "bool" then some .boolean
  else none

/-- The kind of a scalar node; null has none. -/
def ofNode? : Node → Option ScalarKind
  | .bool _ => some .boolean
  | .number n => some (if n.isInteger then .integer else .number)
  | .string _ => some .string
  | .null | .list _ | .map _ => none

end ScalarKind

end SchemaWeave
