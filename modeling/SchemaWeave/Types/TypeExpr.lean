import SchemaWeave.ScalarKind
import SchemaWeave.Text.Blank
import SchemaWeave.Text.Letter
import SchemaWeave.Text.Lines

/-!
The grammar of type expressions:

    type = "[]" type | "*" type | "any" | "interface{}" | "func" | "func(" ...
         | scalar name | identifier "." identifier | identifier

Blanks around a type and after `[]` and `*` do not matter, and neither do spaces within
`interface{}`.
-/

namespace SchemaWeave

inductive TypeExpr where
  | scalar (kind : ScalarKind)
  | named (name : String)
  | qualified (package name : String)
  | array (element : TypeExpr)
  | pointer (target : TypeExpr)
  | interface
  | func
  deriving DecidableEq, Repr

namespace TypeExpr

/-- Why a text is not a type expression. -/
inductive Fault where
  | badQualifiedName
  | unsupported
  deriving DecidableEq, Repr

def Fault.reason : Fault → String
  | .badQualifiedName => "expected 'package.Name'"
  | .unsupported => "unsupported type expression"

/-- A type expression without array and pointer marks, from trimmed text. -/
def parseSimple (cs : List Char) : Except Fault TypeExpr :=
  if cs = "any".toList ∨ cs.filter (· != ' ') = "interface\x7b\x7d".toList then .ok .interface
  else if cs = "func".toList ∨ (Text.stripStart "func(".toList cs).isSome then .ok .func
  else
    match ScalarKind.ofTypeName? (String.ofList cs), Text.cutAt '.' cs with
    | some kind, _ => .ok (.scalar kind)
    | none, some (package, name) =>
      if Text.isIdentifier package && Text.isIdentifier name then
        .ok (.qualified (String.ofList package) (String.ofList name))
      else .error .badQualifiedName
    | none, none =>
      if Text.isIdentifier cs then .ok (.named (String.ofList cs)) else .error .unsupported

/-- Parses trimmed text; a mark takes at least one character, so the length bounds the marks. The
part at fault goes with a fault. -/
def parseTrimmed : Nat → List Char → Except (Fault × List Char) TypeExpr
  | 0, cs => (parseSimple cs).mapError fun fault => (fault, cs)
  | fuel + 1, cs =>
    match cs with
    | '[' :: ']' :: rest => (parseTrimmed fuel (Text.trim rest)).map .array
    | '*' :: rest => (parseTrimmed fuel (Text.trim rest)).map .pointer
    | _ => (parseSimple cs).mapError fun fault => (fault, cs)

/-- Parses a type expression. -/
def parse (text : String) : Except (Fault × List Char) TypeExpr :=
  let cs := Text.trim text.toList
  parseTrimmed cs.length cs

/-- The name of the type that an embedded field names: what follows the last point, after any
pointer marks. -/
def bareName? (text : String) : Option String :=
  let cs := (Text.trim text.toList).dropWhile (· == '*')
  match (Text.splitAt '.' cs).getLast? with
  | some name => if Text.isIdentifier name then some (String.ofList name) else none
  | none => none

end TypeExpr

end SchemaWeave
