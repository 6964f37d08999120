import SchemaWeave.Document.Node
import SchemaWeave.Json.Numeral
import SchemaWeave.Json.Quoted

/-!
Two layouts of one document: compact, without any blank, and indented by two blanks a level, where
an empty list or map stays closed up. Entries keep their order, and duplicate keys are written as
often as they occur.
-/

namespace SchemaWeave.Node

mutual

/-- The compact text of a node. -/
def compact : Node → List Char
  | .null => ['n', 'u', 'l', 'l']
  | .bool true => ['t', 'r', 'u', 'e']
  | .bool false => ['f', 'a', 'l', 's', 'e']
  | .number n => Json.numberText n
  | .string s => Json.quote s.toList
  | .list [] => ['[', ']']
  | .list (item :: rest) => '[' :: compact item ++ compactItems rest
  | .map [] => ['{', '}']
  | .map ((key, value) :: rest) =>
    '{' :: Json.quote key.toList ++ ':' :: compact value ++ compactEntries rest

/-- The items after the first, and the closing bracket. -/
def compactItems : List Node → List Char
  | [] => [']']
  | item :: rest => ',' :: compact item ++ compactItems rest

/-- The entries after the first, and the closing brace. -/
def compactEntries : List (String × Node) → List Char
  | [] => ['}']
  | (key, value) :: rest =>
    ',' :: Json.quote key.toList ++ ':' :: compact value ++ compactEntries rest

end

/-- A new line at an indentation level. -/
def jsonLine (level : Nat) : List Char := '\n' :: List.replicate (2 * level) ' '

mutual

/-- The indented text of a node whose closing bracket stands at the given level. -/
def indented (level : Nat) : Node → List Char
  | .null => ['n', 'u', 'l', 'l']
  | .bool true => ['t', 'r', 'u', 'e']
  | .bool false => ['f', 'a', 'l', 's', 'e']
  | .number n => Json.numberText n
  | .string s => Json.quote s.toList
  | .list [] => ['[', ']']
  | .list (item :: rest) =>
    '[' :: jsonLine (level + 1) ++ indented (level + 1) item ++ indentedItems level rest
  | .map [] => ['{', '}']
  | .map ((key, value) :: rest) =>
    '{' :: jsonLine (level + 1) ++ Json.quote key.toList ++ ':' :: ' ' ::
      indented (level + 1) value ++ indentedEntries level rest

def indentedItems (level : Nat) : List Node → List Char
  | [] => jsonLine level ++ [']']
  | item :: rest =>
    ',' :: jsonLine (level + 1) ++ indented (level + 1) item ++ indentedItems level rest

def indentedEntries (level : Nat) : List (String × Node) → List Char
  | [] => jsonLine level ++ ['}']
  | (key, value) :: rest =>
    ',' :: jsonLine (level + 1) ++ Json.quote key.toList ++ ':' :: ' ' ::
      indented (level + 1) value ++ indentedEntries level rest

end

/-- The document as JSON text without blanks. -/
def toJson (n : Node) : String := String.ofList n.compact

/-- The document as indented JSON text. -/
def toJsonPretty (n : Node) : String := String.ofList (n.indented 0)

/-- A scalar as a map key or a loose concatenation shows it; maps and lists as compact JSON. -/
def plainText : Node → String
  | .string s => s
  | n => n.toJson

end SchemaWeave.Node
