import SchemaWeave.Dictionary
import SchemaWeave.Text.Blank

/-!
A tag such as `json:"id,omitempty" form:"status"` is a row of names, each with a quoted text; what
stands between them is skipped. The whole may stand in backticks.
-/

namespace SchemaWeave.Tag

/-- Characters of names in a tag. -/
def isNameChar (c : Char) : Bool :=
  (decide ('a' ≤ c) && decide (c ≤ 'z')) || (decide ('A' ≤ c) && decide (c ≤ 'Z')) ||
    (decide ('0' ≤ c) && decide (c ≤ '9')) || c == '_' || c == '-'

/-- Where a reader stands: in a name, which may be empty; after the colon of a name; or in the text
of a name. -/
inductive Place where
  | inName (name : List Char)
  | afterColon (name : List Char)
  | inText (name text : List Char)
  deriving DecidableEq, Repr

/-- The place after a character that is no part of an entry so far. -/
def Place.restart (c : Char) : Place := if isNameChar c then .inName [c] else .inName []

/-- The place after one more character, and the entry that it completes. -/
def Place.next (c : Char) : Place → Place × Option (String × String)
  | .inName name =>
    if isNameChar c then (.inName (name ++ [c]), none)
    else if c = ':' ∧ name ≠ [] then (.afterColon name, none)
    else (.inName [], none)
  | .afterColon name => if c = '"' then (.inText name [], none) else (.restart c, none)
  | .inText name text =>
    if c = '"' then (.inName [], some (String.ofList name, String.ofList text))
    else (.inText name (text ++ [c]), none)

/-- The entries of a text in order. -/
def entries (place : Place) : List Char → List (String × String)
  | [] => []
  | c :: rest =>
    let (place, entry) := place.next c
    entry.toList ++ entries place rest

/-- A text without the backticks at its ends. -/
def dropBackticks (cs : List Char) : List Char :=
  ((cs.dropWhile (· == '\x60')).reverse.dropWhile (· == '\x60')).reverse

/-- The table of a tag; of entries with one name the last counts. -/
def parse (tag : String) : Dictionary :=
  Dictionary.ofPairs (entries (.inName []) (dropBackticks (Text.trim tag.toList)))

end SchemaWeave.Tag
