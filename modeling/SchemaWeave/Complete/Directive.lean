import SchemaWeave.Text.Blank
import SchemaWeave.Text.Letter
import SchemaWeave.Text.Lines

/-!
What makes an entry of a document a directive, and what makes a text an expression. A key that
begins with `x-$` is a host directive, one that begins with `js-` an expression directive. A text is
marked as an expression by `js: ` in front or by angle brackets around it; text that merely looks
like an expression is a candidate.
-/

namespace SchemaWeave

/-- How a text is to be treated. -/
inductive ExpressionForm where
  | explicit (code : String)
  | bracketed (code : String)
  | candidate (code : String)
  | plain
  deriving DecidableEq, Repr

namespace ExpressionForm

/-- One word, or two with a point between them. -/
def isIdentifierPath (cs : List Char) : Bool :=
  let parts := Text.splitAt '.' cs
  decide (parts.length ≤ 2) && parts.all fun part => !part.isEmpty && part.all Text.isWordChar

/-- What stands between an opening and a closing character at the ends of a text. -/
def enclosed? (opening closing : Char) (cs : List Char) : Option (List Char) :=
  match cs with
  | c :: d :: rest =>
    if c = opening ∧ (d :: rest).getLast? = some closing then some (d :: rest).dropLast else none
  | _ => none

/-- Text that may be an expression: an object, an array, a call of `schema`, or a path of at most
two identifiers. It has at least two bytes. -/
def isCandidate (cs : List Char) : Bool :=
  decide (2 ≤ Text.byteLength cs) &&
    ((enclosed? '{' '}' cs).isSome || (enclosed? '[' ']' cs).isSome ||
      ((Text.stripStart "schema(".toList cs).isSome && cs.getLast? == some ')') ||
      isIdentifierPath cs)

/-- How a text is to be treated. -/
def detect (text : String) : ExpressionForm :=
  let cs := text.toList
  match Text.stripStart "js: ".toList cs, enclosed? '<' '>' cs with
  | some code, _ => .explicit (String.ofList (Text.trim code))
  | none, some code => .bracketed (String.ofList (Text.trim code))
  | none, none => if isCandidate cs then .candidate text else .plain

/-- The expression, if there may be one. -/
def code? : ExpressionForm → Option String
  | .explicit code | .bracketed code | .candidate code => some code
  | .plain => none

/-- Whether the author marked the text as an expression. -/
def isMarked : ExpressionForm → Bool
  | .explicit _ | .bracketed _ => true
  | .candidate _ | .plain => false

end ExpressionForm

/-- The name under which the value of an expression directive is stored. -/
def expressionKey? (key : String) : Option String :=
  (Text.stripStart "js-".toList key.toList).map String.ofList

/-- Whether a key is one of a host directive. -/
def isHostDirective (key : String) : Bool := (Text.stripStart "x-$".toList key.toList).isSome

/-- The places where schemas are defined; a star stands for any name. -/
def definitionPattern : List String := ["components", "schemas", "*", "x-$schema"]

end SchemaWeave
