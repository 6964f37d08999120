import SchemaWeave.Text.Lines

/-!
A cursor is the text still to be read together with its place, since indentation and the length of
keys are part of the grammar. Carriage returns, line feeds, their pairs and U+0085 all end a line
and are kept as a line feed; U+2028 and U+2029 end a line and are kept as they are.
-/

namespace SchemaWeave.Yaml

/-- Why a text is not a document of the wanted form. -/
inductive Fault where
  | forbiddenCharacter
  | unexpectedCharacter
  | tabIndentation
  | missingColon
  | misplacedEntry
  | misplacedKey
  | misplacedValue
  | badDirective
  | badName
  | badTag
  | badHeader
  | badEscape
  | markerInString
  | unterminated
  | unexpectedToken
  | undefinedHandle
  | unknownAnchor
  | severalDocuments
  | tooDeep
  | tooManyAliases
  | badScalar
  | outOfRange
  | wrongKind
  | duplicateField
  | missingField
  | unknownField
  deriving DecidableEq, Repr

def Fault.message : Fault → String
  | .forbiddenCharacter => "control characters are not allowed"
  | .unexpectedCharacter => "character that cannot begin a token"
  | .tabIndentation => "tab in the indentation"
  | .missingColon => "key without a colon"
  | .misplacedEntry => "sequence entries are not allowed here"
  | .misplacedKey => "mapping keys are not allowed here"
  | .misplacedValue => "mapping values are not allowed here"
  | .badDirective => "malformed directive"
  | .badName => "malformed anchor or alias"
  | .badTag => "malformed tag"
  | .badHeader => "malformed header of a block scalar"
  | .badEscape => "unknown or malformed escape"
  | .markerInString => "document marker in a quoted scalar"
  | .unterminated => "quoted scalar without an end"
  | .unexpectedToken => "unexpected token"
  | .undefinedHandle => "undefined tag handle"
  | .unknownAnchor => "unknown anchor"
  | .severalDocuments => "more than one document"
  | .tooDeep => "recursion limit exceeded"
  | .tooManyAliases => "repetition limit exceeded"
  | .badScalar => "scalar that its type does not admit"
  | .outOfRange => "number out of range"
  | .wrongKind => "value of another kind than expected"
  | .duplicateField => "duplicate field"
  | .missingField => "missing field"
  | .unknownField => "unknown field"

/-- A space or a tab. -/
def isBlank (c : Char) : Bool := c == ' ' || c == '\t'

/-- A character that ends a line. -/
def isBreak (c : Char) : Bool :=
  c == '\r' || c == '\n' || c == '\x85' || c == '\u2028' || c == '\u2029'

/-- Characters that may stand in a document at all. -/
def isAllowed (c : Char) : Bool :=
  let n := c.toNat
  n == 9 || n == 10 || n == 13 || (0x20 ≤ n && n ≤ 0x7E) || n == 0x85 ||
    (0xA0 ≤ n && n ≤ 0xD7FF) || (0xE000 ≤ n && n ≤ 0xFFFD) || 0x10000 ≤ n

/-- Whether the next character, if there is one, is a blank or ends the line. -/
def blankNext (cs : List Char) : Bool :=
  match cs with
  | [] => true
  | c :: _ => isBlank c || isBreak c

/-- The text to read, and how many bytes, lines and characters of this line precede it. -/
structure Cursor where
  rest : List Char
  index : Nat
  line : Nat
  column : Nat

namespace Cursor

def start (cs : List Char) : Cursor := ⟨cs, 0, 0, 0⟩

/-- Moves over characters of this line. -/
def forward (c : Cursor) (n : Nat) : Cursor :=
  ⟨c.rest.drop n, c.index + Text.byteLength (c.rest.take n), c.line, c.column + n⟩

/-- Moves over the characters of this line that satisfy a test. -/
def skipWhile (p : Char → Bool) (c : Cursor) : Cursor := c.forward (c.rest.takeWhile p).length

/-- Moves over everything up to the end of the line. -/
def skipLine (c : Cursor) : Cursor := c.skipWhile fun c => !isBreak c

/-- Moves over one line end; also the text that it is kept as. -/
def takeBreak (c : Cursor) : List Char × Cursor :=
  match c.rest with
  | '\r' :: '\n' :: rest => (['\n'], ⟨rest, c.index + 2, c.line + 1, 0⟩)
  | b :: rest =>
    if isBreak b then
      (if b = '\u2028' ∨ b = '\u2029' then [b] else ['\n'],
        ⟨rest, c.index + b.utf8Size, c.line + 1, 0⟩)
    else ([], c)
  | [] => ([], c)

/-- Whether the cursor stands at the end of the text or of a line. -/
def atLineEnd (c : Cursor) : Bool :=
  match c.rest with
  | [] => true
  | b :: _ => isBreak b

/-- Whether three marks of this kind begin a line and stand alone. -/
def atMarker (c : Cursor) (mark : Char) : Bool :=
  match c.column, c.rest with
  | 0, a :: b :: d :: rest => a == mark && b == mark && d == mark && blankNext rest
  | _, _ => false

/-- Whether a line begins that separates documents. -/
def atAnyMarker (c : Cursor) : Bool := c.atMarker '-' || c.atMarker '.'

end Cursor

end SchemaWeave.Yaml
