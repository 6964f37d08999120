import SchemaWeave.Text.Lines

/-!
Names of files and directories, with slashes between the components. A component that is empty or a
single point adds nothing.
-/

namespace SchemaWeave.PathName

def isAbsolute (path : String) : Bool := path.toList.head? == some '/'

/-- The path of a file as seen from a directory. An absolute path is kept. -/
def join (directory path : String) : String :=
  if isAbsolute path || directory.isEmpty then path
  else if directory.toList.getLast? == some '/' then directory ++ path
  else directory ++ "/" ++ path

/-- The slash or point at the beginning that is a component of its own, and what follows it. -/
def anchor : List Char → List Char × List Char
  | '/' :: rest => (['/'], rest)
  | ['.'] => (['.'], [])
  | '.' :: '/' :: rest => (['.'], '/' :: rest)
  | cs => ([], cs)

/-- Whether a component adds nothing. -/
def isIdle (component : List Char) : Bool := component.isEmpty || component == ['.']

/-- Components in reverse order without the idle ones at their end. -/
def dropIdle (reversed : List (List Char)) : List (List Char) := reversed.dropWhile isIdle

/-- The components after the anchor, in reverse order. -/
def body (path : String) : List (List Char) :=
  dropIdle (Text.splitAt '/' (anchor path.toList).2).reverse

/-- The directory that a path lies in; a root and an empty path have none. -/
def parent? (path : String) : Option String :=
  let (start, _) := anchor path.toList
  match body path with
  | _ :: before =>
    some (String.ofList (start ++ Text.joinWith ['/'] (dropIdle before).reverse))
  | [] => if start = ['.'] then some "" else none

/-- What follows the last point of the last component, unless the point begins it. -/
def extension? (path : String) : Option String :=
  match body path with
  | [] => none
  | name :: _ =>
    let after := (name.reverse.takeWhile (· != '.')).reverse
    if name = ['.', '.'] ∨ name.length ≤ after.length + 1 then none else some (String.ofList after)

end SchemaWeave.PathName
