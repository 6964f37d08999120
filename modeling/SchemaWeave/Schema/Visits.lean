/-!
How often each key is being resolved on the current chain of types.
-/

namespace SchemaWeave

abbrev Visits := List (String × Nat)

namespace Visits

/-- The counter of a key; a key without one counts as zero. -/
def count (key : String) (visits : Visits) : Nat := (visits.lookup key).getD 0

/-- Sets the counter of a key. -/
def put (key : String) (n : Nat) : Visits → Visits
  | [] => [(key, n)]
  | (k, old) :: rest => if k = key then (k, n) :: rest else (k, old) :: put key n rest

/-- Counts a type that is entered. -/
def enter (key : String) (visits : Visits) : Visits := visits.put key (visits.count key + 1)

/-- Counts a type that is left. -/
def leave (key : String) (visits : Visits) : Visits := visits.put key (visits.count key - 1)

end Visits

end SchemaWeave
