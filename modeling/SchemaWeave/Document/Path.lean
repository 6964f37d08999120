import SchemaWeave.Document.Node

/-!
A breadcrumb is the list of keys and decimal list indices from the root to a map. `Entries.visits`
lists every map entry with the breadcrumb of its map, each entry before those below it; `select`
lists the entries whose address runs through maps alone and matches a pattern.
-/

namespace SchemaWeave

/-- Keys and list indices from the root to a map. -/
abbrev Breadcrumb := List String

/-- A map entry met on a walk. -/
structure Visit where
  breadcrumb : Breadcrumb
  key : String
  value : Node

mutual

/-- The entries of a map and below, the map itself standing at `crumbs`. -/
def Entries.visitsAt (crumbs : Breadcrumb) : List (String × Node) → List Visit
  | [] => []
  | (key, value) :: rest =>
    ⟨crumbs, key, value⟩ :: Node.visitsAt (crumbs ++ [key]) value ++ Entries.visitsAt crumbs rest

def Node.visitsAt (crumbs : Breadcrumb) : Node → List Visit
  | .map es => Entries.visitsAt crumbs es
  | .list items => Node.visitsItems crumbs 0 items
  | .null => []
  | .bool _ => []
  | .number _ => []
  | .string _ => []

/-- The entries inside list items, the first of which has the given index. -/
def Node.visitsItems (crumbs : Breadcrumb) (index : Nat) : List Node → List Visit
  | [] => []
  | item :: rest =>
    Node.visitsAt (crumbs ++ [Nat.repr index]) item ++ Node.visitsItems crumbs (index + 1) rest

end

/-- Every map entry of a document, in document order, parents first. -/
def Entries.visits (es : Entries) : List Visit := Entries.visitsAt [] es

/-- One position of a selection pattern; `*` matches any key. -/
def keyMatches (pattern key : String) : Bool := pattern == "*" || pattern == key

/-- The values whose key path matches the pattern, each with the breadcrumb of its map. -/
def Entries.selectAt (crumbs : Breadcrumb) : List String → Entries → List (Breadcrumb × Node)
  | [], _ => []
  | [last], es => (es.filter fun e => keyMatches last e.1).map fun e => (crumbs, e.2)
  | head :: next :: rest, es =>
    es.flatMap fun e =>
      if keyMatches head e.1 then
        match e.2 with
        | .map inner => Entries.selectAt (crumbs ++ [e.1]) (next :: rest) inner
        | _ => []
      else []

/-- The values whose key path from the root matches the pattern. -/
def Entries.select (pattern : List String) (es : Entries) : List (Breadcrumb × Node) :=
  Entries.selectAt [] pattern es

end SchemaWeave
