import SchemaWeave.Command.Files
import SchemaWeave.Command.PathName

/-!
A folder of texts and directories by their places. The directories around the folder, which a path
reaches that is absolute or climbs above it, hold nothing to begin with. Names have at most 255
bytes, and paths less than 4096.
-/

namespace SchemaWeave

/-- The names that lead to something, outermost first: from the folder, or from the root, which is
then the first. Only the first names of a place climb. -/
abbrev Place := List String

namespace Place

def root : Place := ["/"]

/-- Whether this is the folder or a directory around it. -/
def isAround (place : Place) : Bool := place == root || place.all (· == "..")

/-- The directory that a directory lies in; that of the root is the root. -/
def outer (place : Place) : Place :=
  if place == root then root
  else if place.isAround then place ++ [".."]
  else place.dropLast

end Place

/-- The texts of a folder, and its directories besides itself. -/
structure Folder where
  texts : List (Place × String)
  directories : List Place

namespace Folder

def empty : Folder := ⟨[], []⟩

/-- What a place holds. -/
inductive Entry where
  | file (text : String)
  | directory
  deriving DecidableEq, Repr

/-- What stands at a place of the folder. -/
def entry? (f : Folder) (place : Place) : Option Entry :=
  match f.texts.lookup place with
  | some text => some (.file text)
  | none => if place.isAround || f.directories.contains place then some .directory else none

/-- Makes sure that there is a directory. -/
def requireDirectory (f : Folder) (place : Place) : Except FileError Unit :=
  match f.entry? place with
  | none => .error .notFound
  | some (.file _) => .error .notADirectory
  | some .directory => .ok ()

def components (path : String) : List String := (Text.splitAt '/' path.toList).map String.ofList

/-- The place from which a path leads. -/
def base (path : String) : Place := if PathName.isAbsolute path then .root else []

/-- Whether a component leaves a path where it is. -/
def isIdle (name : String) : Bool := name.isEmpty || name == "."

/-- The most bytes that a name has. -/
def longestName : Nat := 255

/-- The most bytes that a path has. -/
def longestPath : Nat := 4095

/-- The place that is reached over components from a directory. Every component but the last has to
lead to a directory. -/
def walk (f : Folder) (place : Place) : List String → Except FileError Place
  | [] => .ok place
  | name :: rest => do
    f.requireDirectory place
    if isIdle name then walk f place rest
    else if name == ".." then walk f place.outer rest
    else if longestName < name.utf8ByteSize then .error .nameTooLong
    else walk f (place ++ [name]) rest

/-- Refuses what cannot be a path. -/
def checkPath (path : String) : Except FileError Unit :=
  if path.toList.contains '\x00' then .error .zeroInName
  else if longestPath < path.utf8ByteSize then .error .nameTooLong
  else if path.isEmpty then .error .notFound
  else .ok ()

/-- The text at a path. A slash at the end asks for a directory. -/
def read (f : Folder) (path : String) : Except FileError String := do
  checkPath path
  match f.entry? (← f.walk (base path) (components path)) with
  | some (.file text) => .ok text
  | some .directory => .error .isADirectory
  | none => .error .notFound

def isFile (f : Folder) (path : String) : Bool := (f.read path).toOption.isSome

/-- The folder with a text at a place. -/
def put (f : Folder) (place : Place) (text : String) : Folder :=
  { f with texts := (place, text) :: f.texts.filter (·.1 != place) }

/-- Writes a text at a path, whose directory has to be there. A path with a slash at its end is one
of a directory, whether or not there is one. -/
def write (f : Folder) (path text : String) : Except FileError Folder := do
  checkPath path
  let reversed := (components path).reverse
  match reversed.dropWhile String.isEmpty with
  | [] => .error .isADirectory
  | name :: before =>
    let directory ← f.walk (base path) before.reverse
    f.requireDirectory directory
    if reversed.head?.any String.isEmpty || isIdle name || name == ".." then .error .isADirectory
    else
      let place ← f.walk directory [name]
      if f.entry? place == some .directory then .error .isADirectory else .ok (f.put place text)

/-- Adds the directories on a way from a place, and says where the way ends. -/
def makeWay (f : Folder) (place : Place) : List String → Folder × Place
  | [] => (f, place)
  | name :: rest =>
    if isIdle name then makeWay f place rest
    else if name == ".." then makeWay f place.outer rest
    else
      let inner := place ++ [name]
      let directories := if f.directories.contains inner then f.directories
        else inner :: f.directories
      makeWay { f with directories } inner rest

/-- Adds a text at a path, with the directories on the way. -/
def add (f : Folder) (path text : String) : Folder :=
  let names := components path
  let (f, directory) := f.makeWay (base path) names.dropLast
  f.put (directory ++ names.getLast?.toList) text

/-- The folder of texts by their paths. -/
def ofTexts (texts : List (String × String)) : Folder :=
  texts.foldl (fun f (path, text) => f.add path text) empty

/-- Access to the files of a folder. -/
def files : Files (StateM Folder) where
  read path := return (← get).read path
  isFile path := return (← get).isFile path
  write path text := do
    match (← get).write path text with
    | .ok f =>
      set f
      return .ok ()
    | .error e => return .error e

end Folder

end SchemaWeave
