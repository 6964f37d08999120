import SchemaWeave.Document.Node

/-!
Merging documents. Two values under one key always combine: maps merge key by key, lists concatenate
without repeating what the earlier list holds, and in every other case the later value takes the
place of the earlier one. Merging a document's own duplicate keys collapses each onto its first
place.
-/

namespace SchemaWeave

/-- The earlier list, then the later items that it does not hold. Items of the later list are
compared with the earlier list alone, so a repetition inside the later list stays. -/
def Node.mergeItems (earlier later : List Node) : List Node :=
  earlier ++ later.filter fun item => !earlier.any (·.same item)

mutual

/-- Combines a later value into an earlier one. -/
def Node.merge (earlier : Node) : Node → Node
  | .map later =>
    match earlier with
    | .map es => .map (Entries.merge es later)
    | _ => .map later
  | .list later =>
    match earlier with
    | .list items => .list (Node.mergeItems items later)
    | _ => .list later
  | .null => .null
  | .bool b => .bool b
  | .number n => .number n
  | .string s => .string s

/-- Merges the later entries one after the other: into the first entry with their key, or at the
end. -/
def Entries.merge (earlier : Entries) : List (String × Node) → Entries
  | [] => earlier
  | (key, value) :: rest =>
    let next :=
      if Entries.contains key earlier then
        Entries.modify key (fun old => Node.merge old value) earlier
      else earlier ++ [(key, value)]
    Entries.merge next rest

end

/-- Merges one value into the first entry with its key, or appends it. -/
def Entries.set (key : String) (value : Node) (es : Entries) : Entries :=
  if Entries.contains key es then Entries.modify key (fun old => old.merge value) es
  else es ++ [(key, value)]

mutual

/-- Collapses duplicate keys everywhere below a node. -/
def Node.mergeDuplicates : Node → Node
  | .map es => .map (Entries.collapse [] es)
  | .list items => .list (Node.mergeDuplicatesItems items)
  | .null => .null
  | .bool b => .bool b
  | .number n => .number n
  | .string s => .string s

def Node.mergeDuplicatesItems : List Node → List Node
  | [] => []
  | item :: rest => item.mergeDuplicates :: Node.mergeDuplicatesItems rest

/-- Sets the collapsed entries one after the other onto those already collected. -/
def Entries.collapse (collected : Entries) : List (String × Node) → Entries
  | [] => collected
  | (key, value) :: rest =>
    Entries.collapse (Entries.set key value.mergeDuplicates collected) rest

end

/-- Collapses the duplicate keys of a map and of everything in it. -/
def Entries.mergeDuplicates (es : Entries) : Entries := Entries.collapse [] es

end SchemaWeave
