import SchemaWeave.Text.Lines

/-!
The lines of a documentation text. A line such as `$:` or `$in: query` opens a block, which goes on
over blank lines and lines that are indented further than its first. All other lines are prose. A
block's text loses the indentation of its first line.
-/

namespace SchemaWeave.Comment

abbrev Line := List Char

/-- The spaces at the beginning of a line. -/
def indentation (line : Line) : Nat := (line.takeWhile (· == ' ')).length

/-- Whether a line opens a block: a dollar sign after spaces, and a colon after it. -/
def opensBlock (line : Line) : Bool :=
  match line.dropWhile (· == ' ') with
  | '$' :: rest => rest.contains ':'
  | _ => false

def isBlankLine (line : Line) : Bool := line.all Text.isBlank

/-- The characters after the first `n` bytes, if a character begins there. -/
def dropBytes : Nat → Line → Option Line
  | 0, line => some line
  | _ + 1, [] => none
  | n + 1, c :: rest => if c.utf8Size ≤ n + 1 then dropBytes (n + 1 - c.utf8Size) rest else none

/-- A line without an indentation. One that is shorter, which has to be blank, loses all blanks. -/
def unindent (n : Nat) (line : Line) : Line := (dropBytes n line).getD (Text.trimStart line)

/-- A metadata block: the number of its first line, counted from one, and its lines. -/
structure Block where
  line : Nat
  first : Line
  rest : List Line
  deriving DecidableEq, Repr

namespace Block

/-- Whether a line belongs to a block that precedes it. -/
def continues (b : Block) (line : Line) : Bool :=
  isBlankLine line || decide (indentation b.first < indentation line)

/-- The text of a block without the indentation of its first line. -/
def text (b : Block) : String :=
  String.ofList
    (Text.joinWith ['\n'] ((b.first :: b.rest).map (unindent (indentation b.first))))

end Block

/-- What the lines so far hold: their number, the prose, the blocks that are closed and the one that
is open. -/
structure Reading where
  count : Nat
  prose : List Line
  closed : List Block
  current : Option Block

namespace Reading

def start : Reading := ⟨0, [], [], none⟩

/-- All blocks, an open one included. -/
def blocks (r : Reading) : List Block := r.closed ++ r.current.toList

/-- Takes a line that belongs to no open block. -/
def outside (r : Reading) (line : Line) : Reading :=
  if opensBlock line then
    { r with count := r.count + 1, closed := r.blocks, current := some ⟨r.count + 1, line, []⟩ }
  else
    { r with
      count := r.count + 1, prose := r.prose ++ [line], closed := r.blocks, current := none }

/-- Takes the next line. -/
def next (r : Reading) (line : Line) : Reading :=
  match r.current with
  | some b =>
    if b.continues line then
      { r with count := r.count + 1, current := some { b with rest := b.rest ++ [line] } }
    else r.outside line
  | none => r.outside line

end Reading

/-- Sorts lines into prose and blocks. -/
def readLines (lines : List Line) : Reading := lines.foldl Reading.next Reading.start

end SchemaWeave.Comment
