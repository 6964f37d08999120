/-!
A table from names to texts, kept in the order of the names; a name that is entered again gets the
later text.
-/

namespace SchemaWeave

abbrev Dictionary := List (String × String)

namespace Dictionary

/-- Enters a name, in its place in the order. -/
def insert (key value : String) : Dictionary → Dictionary
  | [] => [(key, value)]
  | (k, v) :: rest =>
    if key = k then (key, value) :: rest
    else if key < k then (key, value) :: (k, v) :: rest
    else (k, v) :: insert key value rest

/-- The table of pairs, of which the later ones count. -/
def ofPairs (pairs : List (String × String)) : Dictionary :=
  pairs.foldl (fun table (key, value) => insert key value table) []

def get? (key : String) (table : Dictionary) : Option String := table.lookup key

end Dictionary

end SchemaWeave
