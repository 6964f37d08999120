import SchemaWeave.Dictionary
import SchemaWeave.Yaml.Reader

/-!
Readers for documents of a known form. A text takes any scalar as it is written; an optional value
is absent where null stands; lists, tables and records are empty where nothing stands.
-/

namespace SchemaWeave.Yaml

namespace Shape

/-- Whether nothing is written. -/
def isAbsent : Shape → Bool
  | .void => true
  | .scalar _ .plain text => text.isEmpty
  | _ => false

end Shape

namespace Decoder

/-- Any scalar, as it is written. -/
def text : Decoder String
  | .scalar _ _ text => return text
  | _ => throw .wrongKind

/-- Nothing, or what another reader reads. -/
def optional {α : Type} (read : Decoder α) : Decoder (Option α)
  | .void => return none
  | .scalar none .plain text =>
    if text.isEmpty || isNullText text.toList then return none
    else some <$> read (.scalar none .plain text)
  | .scalar (some tag) .plain text =>
    if tag = Raw.coreTags ++ "null" then
      if isNullText text.toList then return none else throw .badScalar
    else some <$> read (.scalar (some tag) .plain text)
  | s => some <$> read s

/-- Whether a scalar may be a value of a core type: plain, or a literal block with its tag. -/
def isBare (type : String) (tag : Option String) (style : Style) : Bool :=
  style == .plain || (style == .literal && tag == some (Raw.coreTags ++ type))

def bool : Decoder Bool
  | .scalar tag style text =>
    match isBare "bool" tag style, boolText? text.toList with
    | true, some b => return b
    | _, _ => throw .wrongKind
  | _ => throw .wrongKind

/-- A number below a limit, which is at most `2 ^ 64`. -/
def natBelow (limit : Nat) : Decoder Nat
  | .scalar tag style text =>
    match isBare "int" tag style, unsigned? text.toList with
    | true, some n => if n < limit then return n else throw .outOfRange
    | _, _ => throw .wrongKind
  | _ => throw .wrongKind

def list {α : Type} (read : Decoder α) : Decoder (List α)
  | .sequence items => items.mapM (Tree.decode read)
  | s => if s.isAbsent then return [] else throw .wrongKind

/-- A table of texts. -/
def dictionary : Decoder Dictionary
  | .mapping entries => do
    return Dictionary.ofPairs (← entries.mapM fun (key, value) => do
      return (← key.decode text, ← value.decode text))
  | s => if s.isAbsent then return [] else throw .wrongKind

end Decoder

/-- The parts of a record by name. -/
abbrev Parts := List (String × Tree)

/-- Whether a record may have fields of other names. -/
inductive Extra where
  | ignored
  | refused
  deriving DecidableEq, Repr

/-- The fields of a mapping that a record knows. No other field is looked at. -/
def namedParts (names : List String) (extra : Extra) :
    Parts → List (Tree × Tree) → Looking Parts
  | found, [] => return found
  | found, (key, value) :: rest => do
    let name ← key.decode Decoder.text
    if names.contains name then
      if found.any (·.1 == name) then throw .duplicateField
      else namedParts names extra (found ++ [(name, value)]) rest
    else
      match extra with
      | .ignored => namedParts names extra found rest
      | .refused => throw .unknownField

/-- The parts of a record with fields of the given names. -/
def Decoder.record (names : List String) (extra : Extra) : Decoder Parts
  | .mapping entries => namedParts names extra [] entries
  | s => if s.isAbsent then return [] else throw .wrongKind

namespace Parts

/-- A field that has to be there. -/
def required {α : Type} (parts : Parts) (name : String) (read : Decoder α) : Looking α :=
  match parts.lookup name with
  | some t => t.decode read
  | none => throw .missingField

/-- A field, or what stands for it when it is left out. -/
def withDefault {α : Type} (parts : Parts) (name : String) (default : α) (read : Decoder α) :
    Looking α :=
  match parts.lookup name with
  | some t => t.decode read
  | none => return default

end Parts

end SchemaWeave.Yaml
