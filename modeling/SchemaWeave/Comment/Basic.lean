import SchemaWeave.Document.Node

/-!
The documentation of a declaration: its prose, the first paragraph and the rest of it, and the
metadata that its blocks hold.
-/

namespace SchemaWeave

structure Doc where
  full : String
  summary : String
  description : String
  metadata : Entries
  deriving Inhabited

/-- The documentation of a declaration that has none. -/
def Doc.empty : Doc := ⟨"", "", "", []⟩

end SchemaWeave
