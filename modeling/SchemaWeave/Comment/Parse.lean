import SchemaWeave.Comment.Basic
import SchemaWeave.Comment.Blocks
import SchemaWeave.Yaml.Reader

/-!
Every block is a YAML map. Its key `$`, when it holds a map, stands for the entries of that map;
other keys lose one dollar sign. The metadata of all blocks follow each other in order.
-/

namespace SchemaWeave

/-- Why documentation cannot be parsed: a block whose text is no YAML, for a cause that the reader
of YAML names, or is no map. -/
inductive DocError (ε : Type) where
  | invalidMeta (line : Nat) (cause : ε)
  | notAMap (line : Nat) (found : String)
  deriving DecidableEq, Repr

def DocError.message : DocError Yaml.Fault → String
  | .invalidMeta line cause =>
    s!"invalid metadata block starting at line {line}: yaml: {cause.message}"
  | .notAMap line found => s!"metadata block starting at line {line} must be a map, found {found}"

namespace Comment

/-- A key without a dollar sign in front. -/
def dropDollar (key : String) : String :=
  match key.toList with
  | '$' :: rest => String.ofList rest
  | _ => key

/-- What an entry of a block adds to the metadata. -/
def spliceEntry : String × Node → Entries
  | (key, value) =>
    match value with
    | .map inner => if key = "$" then inner else [(dropDollar key, value)]
    | _ => [(dropDollar key, value)]

/-- The metadata of a block, given how YAML is read. -/
def blockMeta {ε : Type} (yaml : String → Except ε Node) (b : Block) :
    Except (DocError ε) Entries :=
  match yaml b.text with
  | .error cause => .error (.invalidMeta b.line cause)
  | .ok (.map entries) => .ok (entries.flatMap spliceEntry)
  | .ok other => .error (.notAMap b.line other.kindName)

/-- The metadata of blocks, in order; the first faulty block decides. -/
def allMeta {ε : Type} (yaml : String → Except ε Node) : List Block → Except (DocError ε) Entries
  | [] => .ok []
  | b :: rest => do
    let first ← blockMeta yaml b
    let others ← allMeta yaml rest
    .ok (first ++ others)

/-- Lines as one text, each with a line feed at its end. -/
def proseText (lines : List Line) : List Char := lines.flatMap fun line => line ++ ['\n']

/-- The first paragraph of a text, and what follows the empty lines after it. -/
def paragraphs (text : List Char) : List Char × List Char :=
  match Text.cutAtBlankLine text with
  | some (first, rest) => (first, rest.dropWhile (· == '\n'))
  | none => (text, [])

end Comment

/-- Parses documentation, given how YAML is read. -/
def Doc.parseWith {ε : Type} (yaml : String → Except ε Node) (text : String) :
    Except (DocError ε) Doc := do
  let reading := Comment.readLines (Text.lines text.toList)
  let metadata ← Comment.allMeta yaml reading.blocks
  let full := Text.trim (Comment.proseText reading.prose)
  let (summary, description) := Comment.paragraphs full
  .ok ⟨String.ofList full, String.ofList summary, String.ofList description, metadata⟩

/-- Parses documentation. -/
def Doc.parse (text : String) : Except (DocError Yaml.Fault) Doc := Doc.parseWith Node.ofYaml text

end SchemaWeave
