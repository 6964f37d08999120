import SchemaWeave.Document.Node
import SchemaWeave.Json.Numeral
import SchemaWeave.Json.Quoted

/-!
A recursive descent over the characters. The depth budget bounds how many lists and maps may be
open at once; a document keeps the order of its entries and its duplicate keys.
-/

namespace SchemaWeave.Json

/-- Why a text is not a JSON document. -/
inductive Fault where
  | eofInList
  | eofInMap
  | eofInString
  | eofInValue
  | expectedColon
  | expectedListEnd
  | expectedMapEnd
  | expectedWord
  | expectedValue
  | invalidEscape
  | invalidNumber
  | numberOutOfRange
  | controlCharacter
  | keyNotString
  | loneSurrogate
  | missingSurrogate
  | trailingComma
  | trailingCharacters
  | tooDeep
  deriving DecidableEq, Repr

def Fault.message : Fault → String
  | .eofInList => "EOF while parsing a list"
  | .eofInMap => "EOF while parsing an object"
  | .eofInString => "EOF while parsing a string"
  | .eofInValue => "EOF while parsing a value"
  | .expectedColon => "expected `:`"
  | .expectedListEnd => "expected `,` or `]`"
  | .expectedMapEnd => "expected `,` or `\x7d`"
  | .expectedWord => "expected ident"
  | .expectedValue => "expected value"
  | .invalidEscape => "invalid escape"
  | .invalidNumber => "invalid number"
  | .numberOutOfRange => "number out of range"
  | .controlCharacter => "control character (\\u0000-\\u001F) found while parsing a string"
  | .keyNotString => "key must be a string"
  | .loneSurrogate => "lone leading surrogate in hex escape"
  | .missingSurrogate => "unexpected end of hex escape"
  | .trailingComma => "trailing comma"
  | .trailingCharacters => "trailing characters"
  | .tooDeep => "recursion limit exceeded"

/-- A fault with its place: the line, from one, and the bytes of it that were taken. A character
that should not stand there counts as one byte. -/
structure Error where
  fault : Fault
  line : Nat
  column : Nat
  deriving DecidableEq, Repr

def Error.message (e : Error) : String :=
  s!"{e.fault.message} at line {e.line} column {e.column}"

/-- Reading either goes on or stops with a fault and the number of bytes that are left then. -/
abbrev Result := Except (Fault × Nat)

def isBlank (c : Char) : Bool := c == ' ' || c == '\n' || c == '\t' || c == '\r'

def skipBlanks (cs : List Char) : List Char := cs.dropWhile isBlank

/-- A fault found by looking at the next character. -/
def failAt {α : Type} (fault : Fault) (cs : List Char) : Result (α × List Char) :=
  .error (fault, bytesAfterOne cs)

/-- The letters of `null`, `true` or `false` after the first. -/
def word : List Char → List Char → Result (Unit × List Char)
  | [], cs => .ok ((), cs)
  | _ :: _, [] => .error (.eofInValue, 0)
  | w :: ws, c :: cs => if w = c then word ws cs else failAt .expectedWord (c :: cs)

def ofQuote {α : Type} (r : QuoteResult (α × List Char)) : Result (α × List Char) :=
  match r with
  | .ok v => .ok v
  | .error (.unterminated, rest) => .error (.eofInString, rest)
  | .error (.controlCharacter, rest) => .error (.controlCharacter, rest)
  | .error (.badEscape, rest) => .error (.invalidEscape, rest)
  | .error (.loneSurrogate, rest) => .error (.loneSurrogate, rest)
  | .error (.missingSurrogate, rest) => .error (.missingSurrogate, rest)

def ofNumeral {α : Type} (r : NumeralResult (α × List Char)) : Result (α × List Char) :=
  match r with
  | .ok v => .ok v
  | .error (.malformed, rest) => .error (.invalidNumber, rest)
  | .error (.unfinished, rest) => .error (.eofInValue, rest)
  | .error (.outOfRange, rest) => .error (.numberOutOfRange, rest)

/-- The items of a list up to its bracket, where an item has to stand here. -/
def items (item : List Char → Result (Node × List Char)) :
    Nat → List Char → Result (List Node × List Char)
  | 0, cs => failAt .tooDeep cs
  | fuel + 1, cs => do
    let (value, rest) ← item cs
    match skipBlanks rest with
    | [] => failAt .eofInList []
    | ']' :: rest => .ok ([value], rest)
    | ',' :: rest =>
      match skipBlanks rest with
      | [] => failAt .eofInValue []
      | ']' :: rest => failAt .trailingComma (']' :: rest)
      | c :: rest => do
        let (values, rest) ← items item fuel (c :: rest)
        .ok (value :: values, rest)
    | cs => failAt .expectedListEnd cs

/-- A key in quotes, a colon and a value. -/
def entry (value : List Char → Result (Node × List Char)) (fuel : Nat) (cs : List Char) :
    Result ((String × Node) × List Char) :=
  match cs with
  | '"' :: rest => do
    let (key, rest) ← ofQuote (unquote fuel rest)
    match skipBlanks rest with
    | ':' :: rest => do
      let (v, rest) ← value rest
      .ok ((String.ofList key, v), rest)
    | [] => failAt .eofInMap []
    | cs => failAt .expectedColon cs
  | cs => failAt .keyNotString cs

/-- The entries of a map up to its brace, where an entry has to stand here. -/
def entries (value : List Char → Result (Node × List Char)) :
    Nat → List Char → Result (Entries × List Char)
  | 0, cs => failAt .tooDeep cs
  | fuel + 1, cs => do
    let (first, rest) ← entry value (fuel + 1) cs
    match skipBlanks rest with
    | [] => failAt .eofInMap []
    | '}' :: rest => .ok ([first], rest)
    | ',' :: rest =>
      match skipBlanks rest with
      | [] => failAt .eofInValue []
      | '}' :: rest => failAt .trailingComma ('}' :: rest)
      | c :: rest => do
        let (others, rest) ← entries value fuel (c :: rest)
        .ok (first :: others, rest)
    | cs => failAt .expectedMapEnd cs

/-- A value that opens no list or map, given its first character and the rest. -/
def scalar (fuel : Nat) (c : Char) (rest : List Char) : Result (Node × List Char) :=
  if c = 'n' then do
    let ((), rest) ← word ['u', 'l', 'l'] rest
    .ok (.null, rest)
  else if c = 't' then do
    let ((), rest) ← word ['r', 'u', 'e'] rest
    .ok (.bool true, rest)
  else if c = 'f' then do
    let ((), rest) ← word ['a', 'l', 's', 'e'] rest
    .ok (.bool false, rest)
  else if c = '-' then do
    let (n, rest) ← ofNumeral (numeral true rest)
    .ok (.number n, rest)
  else if isDigit c then do
    let (n, rest) ← ofNumeral (numeral false (c :: rest))
    .ok (.number n, rest)
  else if c = '"' then do
    let (text, rest) ← ofQuote (unquote fuel rest)
    .ok (.string (String.ofList text), rest)
  else failAt .expectedValue (c :: rest)

/-- A value that may open lists and maps, `depth` of them inside one another. The fuel has to exceed
the number of characters. -/
def value (fuel : Nat) : Nat → List Char → Result (Node × List Char)
  | depth, cs =>
    match skipBlanks cs with
    | [] => failAt .eofInValue []
    | '[' :: rest =>
      match depth with
      | 0 => .error (.tooDeep, Text.byteLength rest)
      | depth + 1 =>
        match skipBlanks rest with
        | [] => failAt .eofInList []
        | ']' :: rest => .ok (.list [], rest)
        | cs => do
          let (found, rest) ← items (value fuel depth) fuel cs
          .ok (.list found, rest)
    | '{' :: rest =>
      match depth with
      | 0 => .error (.tooDeep, Text.byteLength rest)
      | depth + 1 =>
        match skipBlanks rest with
        | [] => failAt .eofInMap []
        | '}' :: rest => .ok (.map [], rest)
        | cs => do
          let (found, rest) ← entries (value fuel depth) fuel cs
          .ok (.map found, rest)
    | c :: rest => scalar fuel c rest

/-- How many lists and maps a document may open inside one another. -/
def maxDepth : Nat := 127

/-- The line that a number of bytes of a text leads to, and how many of them are on it. -/
def place (line column : Nat) : List Char → Nat → Nat × Nat
  | _, 0 => (line, column)
  | [], _ => (line, column)
  | c :: rest, bytes =>
    if c = '\n' then place (line + 1) 0 rest (bytes - 1)
    else place line (column + min bytes c.utf8Size) rest (bytes - c.utf8Size)

/-- Reads a whole text as one document that opens at most `depth` lists and maps at once. -/
def read (depth : Nat) (text : String) : Except Error Node :=
  let cs := text.toList
  let fail (fault : Fault) (left : Nat) : Except Error Node :=
    let (line, column) := place 1 0 cs (Text.byteLength cs - left)
    .error ⟨fault, line, column⟩
  match value (cs.length + 1) depth cs with
  | .error (fault, left) => fail fault left
  | .ok (node, rest) =>
    match skipBlanks rest with
    | [] => .ok node
    | rest => fail .trailingCharacters (bytesAfterOne rest)

end SchemaWeave.Json

namespace SchemaWeave

/-- Reads JSON text as a document. -/
def Node.ofJson (text : String) : Except Json.Error Node := Json.read Json.maxDepth text

end SchemaWeave
