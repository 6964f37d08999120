import SchemaWeave.Json.Numeral
import SchemaWeave.Yaml.Page
import SchemaWeave.Yaml.Style

/-!
Collections are written as blocks, two columns further in for each level, except that a sequence in
a mapping starts at the column of its key; empty collections are written as `[]` and `{}`. A key of
more than 128 bytes, or of several lines, gets a mark of its own.
-/

namespace SchemaWeave

namespace Yaml

/-- Decimal exponents from -5 to 15 are written positionally; positive exponents have no sign. -/
def floatNotation : FloatNotation := ⟨-5, 15, false⟩

def hexDigits (width n : Nat) : List Char :=
  let digits := (Nat.toDigits 16 n).map Char.toUpper
  List.replicate (width - digits.length) '0' ++ digits

/-- How a character is escaped in double quotes. -/
def escapeChar (c : Char) : List Char :=
  let n := c.toNat
  let short := [('\x00', '0'), ('\x07', 'a'), ('\x08', 'b'), ('\t', 't'), ('\n', 'n'),
    ('\x0b', 'v'), ('\x0c', 'f'), ('\r', 'r'), ('\x1b', 'e'), ('"', '"'), ('\\', '\\'),
    ('\x85', 'N'), ('\xa0', '_'), ('\u2028', 'L'), ('\u2029', 'P')]
  match short.lookup c with
  | some letter => ['\\', letter]
  | none =>
    if n ≤ 0xFF then '\\' :: 'x' :: hexDigits 2 n
    else if n ≤ 0xFFFF then '\\' :: 'u' :: hexDigits 4 n
    else '\\' :: 'U' :: hexDigits 8 n

def needsEscape (c : Char) : Bool := !isPrintable c || isBreak c || c == '"' || c == '\\'

/-- A text in double quotes. -/
def doubleQuoted (cs : List Char) : List Char :=
  '"' :: cs.flatMap (fun c => if needsEscape c then escapeChar c else [c]) ++ ['"']

/-- The characters of a text between single quotes; what follows a line end is indented. -/
def putSingleQuoted (column : Nat) : Bool → List Char → Page → Page
  | broken, [], p => if broken then p.indentTo column else p
  | broken, c :: rest, p =>
    if c = ' ' then putSingleQuoted column broken rest (p.put c)
    else if isBreak c then
      putSingleQuoted column true rest { p.endLine c with fresh := true }
    else
      let p := if broken then p.indentTo column else p
      let p := if c = '\'' then p.put c else p
      putSingleQuoted column false rest { p.put c with fresh := false }

/-- What follows the indicator of a literal block: the indentation, where the text begins with a
blank or an empty line, and what is to become of the line ends at the end. -/
def literalHints (cs : List Char) : List Char :=
  let indentation := if cs.head?.any fun c => isSpace c || isBreak c then ['2'] else []
  let chomping := match cs.reverse with
    | last :: before =>
      if !isBreak last then ['-']
      else
        match before with
        | [] => ['+']
        | previous :: _ => if isBreak previous then ['+'] else []
    | [] => ['-']
  indentation ++ chomping

/-- The lines of a literal block. -/
def putLiteral (column : Nat) : Bool → List Char → Page → Page
  | _, [], p => p
  | broken, c :: rest, p =>
    if isBreak c then putLiteral column true rest { p.endLine c with fresh := true }
    else
      let p := if broken then p.indentTo column else p
      putLiteral column false rest { p.put c with fresh := false }

/-- A plain scalar. -/
def putPlain (cs : List Char) (p : Page) : Page := (p.separate.putAll cs).content

/-- A string whose block, if it becomes one, starts at the given column. -/
def putString (column : Nat) (s : String) (p : Page) : Page :=
  let cs := s.toList
  match Style.ofText cs with
  | .plain => putPlain cs p
  | .doubleQuoted => putPlain (doubleQuoted cs) p
  | .literal | .folded =>
    let p := ((p.separate.indicator ['|'] false false).putAll (literalHints cs)).endLine '\n'
    putLiteral column true cs { p with spaced := true, fresh := true }
  | .singleQuoted =>
    let p := p.separate.indicator ['\''] false false
    ((putSingleQuoted column false cs p).put '\'').content

/-- The longest key without a mark, in bytes. -/
def longestSimpleKey : Nat := 128

def isSimpleKey (key : String) : Bool :=
  decide (key.utf8ByteSize ≤ longestSimpleKey) && !key.toList.any isBreak

/-- The column of what is nested in a block at the given column, if there is one. -/
def nested (column : Option Nat) : Nat :=
  match column with
  | some n => n + 2
  | none => 0

/-- The column of the lines of a scalar in such a block. -/
def scalarColumn (column : Option Nat) : Nat :=
  match column with
  | some n => n + 2
  | none => 2

/-- An entry's key with its colon. -/
def putKey (column : Nat) (key : String) (p : Page) : Page :=
  let p := p.indentTo column
  if isSimpleKey key then
    (putString (column + 2) key p).indicator [':'] false false
  else
    let p := p.separate.indicator ['?'] false true
    let p := (putString (column + 2) key p).indentTo column
    p.separate.indicator [':'] false true

mutual

/-- A node inside a block at the given column. A sequence that follows a key on the key's line is
not indented. -/
def putNode (column : Option Nat) (inMapping : Bool) : Node → Page → Page
  | .null, p => putPlain ['n', 'u', 'l', 'l'] p
  | .bool true, p => putPlain ['t', 'r', 'u', 'e'] p
  | .bool false, p => putPlain ['f', 'a', 'l', 's', 'e'] p
  | .number (.int n), p => putPlain (Json.intText n) p
  | .number (.float x), p => putPlain (floatNotation.render x) p
  | .string s, p => putString (scalarColumn column) s p
  | .list [], p => putPlain ['[', ']'] p
  | .map [], p => putPlain ['{', '}'] p
  | .list (item :: rest), p =>
    let column := if inMapping && !p.fresh then column.getD 0 else nested column
    putItems column rest (putNode (some column) false item
      ((p.indentTo column).separate.indicator ['-'] false true))
  | .map ((key, value) :: rest), p =>
    let column := nested column
    putEntries column rest (putNode (some column) true value (putKey column key p))

def putItems (column : Nat) : List Node → Page → Page
  | [], p => p
  | item :: rest, p =>
    putItems column rest (putNode (some column) false item
      ((p.indentTo column).separate.indicator ['-'] false true))

def putEntries (column : Nat) : List (String × Node) → Page → Page
  | [], p => p
  | (key, value) :: rest, p =>
    putEntries column rest (putNode (some column) true value (putKey column key p))

end

end Yaml

/-- The document as YAML text. -/
def Node.toYaml (n : Node) : String := ((Yaml.putNode none false n .blank).indentTo 0).text

end SchemaWeave
