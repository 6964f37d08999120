/-!
A path such as `example.com/pets/model.Pet` names a package and a member of it. The package goes
up to the first point after the last slash; a member may itself have a part after a point, for a
method.
-/

namespace SchemaWeave.TypePath

/-- The characters after the last slash, and what precedes them, the slash included. -/
def lastSegment (cs : List Char) : List Char × List Char :=
  let segment := (cs.reverse.takeWhile (· != '/')).reverse
  (cs.take (cs.length - segment.length), segment)

/-- The package and the member of a path. The member is empty when the last segment has no
point. -/
def split (path : String) : String × String :=
  let (before, segment) := lastSegment path.toList
  match segment.dropWhile (· != '.') with
  | [] => (path, "")
  | _ :: member =>
    (String.ofList (before ++ segment.takeWhile (· != '.')), String.ofList member)

/-- A member of a package, or of a declaration, by its key. -/
def join (owner name : String) : String := owner ++ "." ++ name

/-- A path without slashes at its end. -/
def dropSlashes (path : String) : String :=
  String.ofList (path.toList.reverse.dropWhile (· == '/')).reverse

end SchemaWeave.TypePath
