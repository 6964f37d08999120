import SchemaWeave.Yaml.Plain

/-!
A string is written plain when it then reads back as the same string. Text with line feeds becomes a
literal block. What neither allows goes between single quotes, or, when a character needs an escape
or spaces meet line ends, between double quotes.
-/

namespace SchemaWeave.Yaml

/-- Characters that can be written without an escape. -/
def isPrintable (c : Char) : Bool :=
  let n := c.toNat
  n == 0x0A || (0x20 ≤ n && n ≤ 0x7E) ||
    (0xA0 ≤ n && n != 0xFEFF && n != 0xFFFE && n != 0xFFFF)

/-- Characters that no plain scalar begins with. -/
def isLeadingIndicator (c : Char) : Bool := "#,[]\x7b\x7d&*!|>'\"%@\x60".toList.contains c

/-- Whether a text begins with a line that separates documents. -/
def startsWithMarker (cs : List Char) : Bool :=
  cs.take 3 == ['-', '-', '-'] || cs.take 3 == ['.', '.', '.']

/-- Whether a colon before a blank, or a number sign after one, stands anywhere past the first
character; `afterBlank` tells of the character before. -/
def hasInnerIndicator (afterBlank : Bool) : List Char → Bool
  | [] => false
  | c :: rest =>
    (c == ':' && blankNext rest) || (c == '#' && afterBlank) ||
      hasInnerIndicator (isBlank c || isBreak c) rest

/-- Whether some character of the text would be taken for an indicator. -/
def hasIndicator (cs : List Char) : Bool :=
  match cs with
  | [] => false
  | c :: rest =>
    startsWithMarker cs || isLeadingIndicator c ||
      ((c == '?' || c == ':' || c == '-') && blankNext rest) ||
      hasInnerIndicator (isBlank c || isBreak c) rest

/-- Whether somewhere one character follows another of the given kinds. -/
def hasPair (first second : Char → Bool) : List Char → Bool
  | a :: b :: rest => (first a && second b) || hasPair first second (b :: rest)
  | _ => false

def isSpace (c : Char) : Bool := c == ' '

/-- Whether a plain scalar can hold the text. -/
def allowsPlain (cs : List Char) : Bool :=
  let atEnds (c : Char) : Bool := isSpace c || isBreak c
  !cs.head?.any atEnds && !cs.getLast?.any atEnds && !cs.any isBreak && cs.all isPrintable &&
    !hasIndicator cs

/-- Whether single quotes can hold the text. -/
def allowsSingleQuotes (cs : List Char) : Bool :=
  cs.all isPrintable && !hasPair isSpace isBreak cs && !hasPair isBreak isSpace cs

/-- Whether a block scalar can hold the text. -/
def allowsBlock (cs : List Char) : Bool :=
  !cs.isEmpty && cs.all isPrintable && !hasPair isSpace isBreak cs && !cs.getLast?.any isSpace

/-- Whether a plain scalar would be read as something else than a string, or looks like a number. -/
def looksTyped (cs : List Char) : Bool :=
  isPaddedNumber cs ||
    match plainNode (String.ofList cs) with
    | .ok (.string _) => false
    | _ => true

/-- How a string is written. -/
def Style.ofText (cs : List Char) : Style :=
  if cs.contains '\n' then if allowsBlock cs then .literal else .doubleQuoted
  else if looksTyped cs || !allowsPlain cs then
    if allowsSingleQuotes cs then .singleQuoted else .doubleQuoted
  else .plain

end SchemaWeave.Yaml
