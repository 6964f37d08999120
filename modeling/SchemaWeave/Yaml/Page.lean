/-!
The text written so far, with what decides how it goes on: the column, whether the last character
separates what follows, and whether only indentation and block indicators stand on this line.
-/

namespace SchemaWeave.Yaml

/-- The characters of a page stand in reverse order. -/
structure Page where
  reversed : List Char
  column : Nat
  spaced : Bool
  fresh : Bool

namespace Page

def blank : Page := ⟨[], 0, true, true⟩

def text (p : Page) : String := String.ofList p.reversed.reverse

def put (p : Page) (c : Char) : Page :=
  { p with reversed := c :: p.reversed, column := p.column + 1 }

def putAll (p : Page) (cs : List Char) : Page := cs.foldl put p

/-- Ends a line, with a line feed or another character that ends lines. -/
def endLine (p : Page) (c : Char) : Page := { p with reversed := c :: p.reversed, column := 0 }

/-- Spaces up to a column. -/
def padTo (p : Page) (column : Nat) : Page :=
  p.putAll (List.replicate (column - p.column) ' ')

/-- Goes to a column where a new item may begin, on a new line unless this line is still open
for it. -/
def indentTo (p : Page) (column : Nat) : Page :=
  let stays := p.fresh && decide (p.column ≤ column) && (p.column != column || p.spaced)
  let p := if stays then p else p.endLine '\n'
  { p.padTo column with spaced := true, fresh := true }

/-- A space, unless the last character separates already. -/
def separate (p : Page) : Page := if p.spaced then p else p.put ' '

/-- An indicator. It may itself separate, and may leave the line open for a block. -/
def indicator (p : Page) (marks : List Char) (separates keepsOpen : Bool) : Page :=
  { p.putAll marks with spaced := separates, fresh := p.fresh && keepsOpen }

/-- Marks that end in content. -/
def content (p : Page) : Page := { p with spaced := false, fresh := false }

end Page

end SchemaWeave.Yaml
