import SchemaWeave.Text.Blank

/-!
Cutting a text at line ends, at runs of blanks or at a character, and joining parts again; and its
length in bytes.
-/

namespace SchemaWeave.Text

/-- How many bytes the characters take. -/
def byteLength : List Char → Nat
  | [] => 0
  | c :: rest => c.utf8Size + byteLength rest

/-- Cuts at every occurrence of a character; there is one part more than there are cuts. -/
def splitAt (separator : Char) : List Char → List (List Char)
  | [] => [[]]
  | c :: rest =>
    if c = separator then [] :: splitAt separator rest
    else
      match splitAt separator rest with
      | [] => [[c]]
      | part :: parts => (c :: part) :: parts

/-- Drops a carriage return at the end of a line. -/
def dropReturn (line : List Char) : List Char :=
  match line.getLast? with
  | some '\r' => line.dropLast
  | _ => line

/-- The lines of a text. A line feed ends a line, and a carriage return before it belongs to the
line end; after the last line feed there is a line only when text follows. A carriage return at
the end of a text without a line feed stays. -/
def lines (cs : List Char) : List (List Char) :=
  let parts := splitAt '\n' cs
  let complete := parts.dropLast.map dropReturn
  match parts.getLast? with
  | some (c :: last) => complete ++ [c :: last]
  | _ => complete

/-- The runs of characters that are not blank. -/
def words (cs : List Char) : List (List Char) :=
  let step (c : Char) (state : Bool × List (List Char)) : Bool × List (List Char) :=
    if isBlank c then (false, state.2)
    else
      match state with
      | (true, word :: rest) => (true, (c :: word) :: rest)
      | (_, done) => (true, [c] :: done)
  (cs.foldr step (false, [])).2

/-- Parts in a row with a separator between each two. -/
def joinWith (separator : List Char) : List (List Char) → List Char
  | [] => []
  | [last] => last
  | part :: rest => part ++ separator ++ joinWith separator rest

/-- Splits at the first occurrence of a character, which belongs to neither half. -/
def cutAt (separator : Char) (cs : List Char) : Option (List Char × List Char) :=
  match cs.dropWhile (· != separator) with
  | [] => none
  | _ :: rest => some (cs.takeWhile (· != separator), rest)

/-- What follows a text that is expected at the beginning. -/
def stripStart : List Char → List Char → Option (List Char)
  | [], cs => some cs
  | _ :: _, [] => none
  | e :: expected, c :: cs => if e = c then stripStart expected cs else none

/-- The first characters of a text, with an empty line as the cut: what precedes it, and what
follows it. -/
def cutAtBlankLine : List Char → Option (List Char × List Char)
  | '\n' :: '\n' :: rest => some ([], rest)
  | c :: rest => (cutAtBlankLine rest).map fun (first, second) => (c :: first, second)
  | [] => none

end SchemaWeave.Text
