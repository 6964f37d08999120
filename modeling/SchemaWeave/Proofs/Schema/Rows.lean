import Mathlib.Logic.ExistsUnique
import SchemaWeave.Proofs.Document.Absorption
import SchemaWeave.Schema.Resolve
import SchemaWeave.Schema.Render
import SchemaWeave.Types.Load

/-!
The table of document forms, row by row. Every schema is written as one row
(`Schema.admits_toNode`), and no document fits two of them (`Row.admits_unique`). Inside a document
the places of other schemas are found by the keys of the table alone (`Node.At`).

Properties with one name are merged into one value (`Schema.get?_toEntries`), which need not fit any
row. Where no two properties share a name, every place holds one row (`Resolver.typeSchema_rows`).
-/

namespace SchemaWeave

/-- A place in a row: its key, whether it may be missing, and which values it takes. -/
structure Slot where
  key : String
  optional : Bool
  takes : Node → Bool

/-- The rows of the table of document forms. -/
inductive Row where
  | object
  | array
  | scalar
  | reference
  | composition
  | any
  | hardError
  | softError
  deriving DecidableEq, Repr

namespace Row

/-- The keyword of a type is one of those listed. -/
def isKeyword (keywords : List String) (n : Node) : Bool := n.asString?.any keywords.contains

def isText (n : Node) : Bool := n.asString?.isSome

def isMap (n : Node) : Bool := n.asMap?.isSome

def isList (n : Node) : Bool := n.asList?.isSome

/-- The keys of a row, in order. -/
def slots : Row → List Slot
  | .object => [⟨"type", false, isKeyword ["object"]⟩, ⟨"description", true, isText⟩,
      ⟨"properties", false, isMap⟩, ⟨"example", true, fun _ => true⟩, ⟨"modify", true, isList⟩]
  | .array => [⟨"type", false, isKeyword ["array"]⟩, ⟨"description", true, isText⟩,
      ⟨"items", false, fun _ => true⟩]
  | .scalar => [⟨"type", false, isKeyword ["integer", "number", "string", "boolean"]⟩,
      ⟨"description", true, isText⟩, ⟨"enum", true, isList⟩, ⟨"default", true, fun _ => true⟩,
      ⟨"example", true, fun _ => true⟩]
  | .reference => [⟨"$ref", false, isText⟩]
  | .composition => [⟨"allOf", false, isList⟩, ⟨"x-properties", false, isMap⟩]
  | .any => [⟨"description", true, isText⟩, ⟨"x-any", false, (·.asBool? == some true)⟩,
      ⟨"oneOf", false, isList⟩]
  | .hardError => [⟨"error", false, isText⟩]
  | .softError => [⟨"x-error", false, isText⟩]

/-- The entries fill the slots in order; only optional ones are left out. -/
def fills : List Slot → Entries → Bool
  | [], es => es.isEmpty
  | slot :: rest, [] => slot.optional && fills rest []
  | slot :: rest, (key, value) :: es =>
    if slot.key = key then slot.takes value && fills rest es
    else slot.optional && fills rest ((key, value) :: es)

/-- The node is a map whose entries fill the row. -/
def admits (row : Row) : Node → Bool
  | .map es => fills row.slots es
  | _ => false

theorem exists_slot_of_fills (slots : List Slot) : ∀ {es : Entries} {key : String},
    fills slots es = true → key ∈ es.keys → ∃ slot ∈ slots, slot.key = key := by
  induction slots with
  | nil =>
      intro es key h hkey
      obtain rfl := List.isEmpty_iff.1 h
      cases hkey
  | cons slot rest ih =>
      intro es key h hkey
      cases es with
      | nil => cases hkey
      | cons entry es =>
          obtain ⟨k, value⟩ := entry
          rw [fills] at h
          split at h
          next hk =>
            rcases List.mem_cons.1 hkey with rfl | hkey
            · exact ⟨slot, List.mem_cons_self, hk⟩
            · obtain ⟨s, hs, heq⟩ := ih (Bool.and_eq_true_iff.1 h).2 hkey
              exact ⟨s, List.mem_cons_of_mem _ hs, heq⟩
          next =>
            obtain ⟨s, hs, heq⟩ := ih (Bool.and_eq_true_iff.1 h).2 hkey
            exact ⟨s, List.mem_cons_of_mem _ hs, heq⟩

theorem mem_keys_of_fills (slots : List Slot) : ∀ {es : Entries} {slot : Slot},
    fills slots es = true → slot ∈ slots → slot.optional = false → slot.key ∈ es.keys := by
  induction slots with
  | nil => intro es slot _ hslot; cases hslot
  | cons first rest ih =>
      intro es slot h hslot hneeded
      cases es with
      | nil =>
          obtain ⟨hoptional, h⟩ := Bool.and_eq_true_iff.1 h
          rcases List.mem_cons.1 hslot with rfl | hslot
          · rw [hneeded] at hoptional
            cases hoptional
          · exact ih h hslot hneeded
      | cons entry es =>
          obtain ⟨k, value⟩ := entry
          rw [fills] at h
          split at h
          next hk =>
            rcases List.mem_cons.1 hslot with rfl | hslot
            · exact List.mem_cons.2 (.inl hk)
            · exact List.mem_cons_of_mem _ (ih (Bool.and_eq_true_iff.1 h).2 hslot hneeded)
          next =>
            obtain ⟨hoptional, h⟩ := Bool.and_eq_true_iff.1 h
            rcases List.mem_cons.1 hslot with rfl | hslot
            · rw [hneeded] at hoptional
              cases hoptional
            · exact ih h hslot hneeded

/-- The row needs a key that the other one does not have. -/
def Needs (row other : Row) : Prop :=
  ∃ slot ∈ row.slots, slot.optional = false ∧ ∀ s ∈ other.slots, s.key ≠ slot.key

instance (row other : Row) : Decidable (row.Needs other) :=
  inferInstanceAs (Decidable (∃ slot ∈ row.slots, _ ∧ ∀ s ∈ other.slots, _))

theorem needs_or_needs (row other : Row) : row = other ∨ row.Needs other ∨ other.Needs row := by
  cases row <;> cases other <;> decide +kernel

theorem Needs.admits_eq_false {row other : Row} (hneeds : row.Needs other) {n : Node}
    (h : row.admits n = true) : other.admits n = false := by
  cases n with
  | map es =>
      obtain ⟨slot, hslot, hneeded, hother⟩ := hneeds
      rw [Bool.eq_false_iff]
      intro hfills
      obtain ⟨s, hs, heq⟩ := exists_slot_of_fills _ hfills (mem_keys_of_fills _ h hslot hneeded)
      exact hother s hs heq
  | null | bool | number | string | list => rfl

/-- No document mixes two rows. -/
theorem admits_unique {row other : Row} {n : Node} (h : row.admits n = true)
    (hother : other.admits n = true) : row = other := by
  rcases needs_or_needs row other with heq | hneeds | hneeds
  · exact heq
  · rw [hneeds.admits_eq_false h] at hother
    cases hother
  · rw [hneeds.admits_eq_false hother] at h
    cases h

end Row

namespace Entries

variable {es : Entries} {key : String}

theorem erase_of_not_mem (h : key ∉ es.keys) : es.erase key = es := by
  induction es with
  | nil => rfl
  | cons entry rest ih =>
      obtain ⟨k, v⟩ := entry
      obtain ⟨hk, hrest⟩ := not_or.1 fun hmem => h (List.mem_cons.2 hmem)
      simp [erase, Ne.symm hk, ih hrest]

theorem erase_insert_of_not_mem (h : key ∉ es.keys) (value : Node) :
    (es.insert key value).erase key = es := by
  rw [insert_of_not_mem h]
  induction es with
  | nil => simp [erase]
  | cons entry rest ih =>
      obtain ⟨k, v⟩ := entry
      obtain ⟨hk, hrest⟩ := not_or.1 fun hmem => h (List.mem_cons.2 hmem)
      simp [erase, Ne.symm hk, ih hrest]

end Entries

/-- A step from a schema in a document to one inside it. -/
inductive Step where
  | property (name : String)
  | listed (name : String)
  | items
  | member (index : Nat)

namespace Node

/-- A property without the metadata of its field. -/
def withoutMetadata : Node → Node
  | .map es => .map (Entries.erase "x-meta" es)
  | other => other

/-- The step leads from the first node to the second. -/
inductive Inside : Node → Step → Node → Prop where
  | property {es properties : Entries} {name : String} {n : Node}
      (hes : ("properties", .map properties) ∈ es) (hn : (name, n) ∈ properties) :
      Inside (.map es) (.property name) n.withoutMetadata
  | listed {es flattened : Entries} {name : String} {n : Node}
      (hes : ("x-properties", .map flattened) ∈ es) (hn : (name, n) ∈ flattened) :
      Inside (.map es) (.listed name) n.withoutMetadata
  | items {es : Entries} {n : Node} (hes : ("items", n) ∈ es) : Inside (.map es) .items n
  | member {es : Entries} {members : List Node} {index : Nat} {n : Node}
      (hes : ("allOf", .list members) ∈ es) (hn : members[index]? = some n) :
      Inside (.map es) (.member index) n

/-- The path leads from the first node to the second. -/
inductive At : Node → List Step → Node → Prop where
  | here (n : Node) : At n [] n
  | inside {root inner n : Node} {step : Step} {path : List Step} (hstep : root.Inside step inner)
      (hpath : At inner path n) : At root (step :: path) n

end Node

namespace Schema

/-- The schemas that are written at a step: several, if properties share the name. -/
def under : Step → Schema → List Schema
  | .property name, .object properties _ _ _ =>
    (properties.filter (·.name = name)).map Member.schema
  | .listed name, .allOf _ flattened => (flattened.filter (·.name = name)).map Member.schema
  | .items, .array items _ => [items]
  | .member index, .allOf members _ => members[index]?.toList
  | _, _ => []

/-- Whether two properties share a name on the way. -/
def clashes : List Step → Schema → Bool
  | [], _ => false
  | step :: path, s => 2 ≤ (s.under step).length || (s.under step).any (clashes path)

/-- The row that a schema is written as. -/
def row : Schema → Row
  | .object .. => .object
  | .array .. => .array
  | .scalar _ => .scalar
  | .ref _ => .reference
  | .allOf .. => .composition
  | .any _ => .any
  | .error _ .hard => .hardError
  | .error _ .soft => .softError

/-- Every schema is written as its row. -/
theorem admits_toNode (s : Schema) : s.row.admits s.toNode = true := by
  cases s with
  | object properties description sample modifiers =>
      cases description <;> cases sample <;> cases modifiers <;> rfl
  | array items description => cases description <;> rfl
  | scalar s =>
      obtain ⟨kind, description, constants, fallback, sample⟩ := s
      cases kind <;> cases description <;> cases constants <;> cases fallback <;> cases sample <;>
        rfl
  | ref target => rfl
  | allOf members flattened => rfl
  | any description => cases description <;> rfl
  | error message severity => cases severity <;> rfl

/-- What a property is written as. -/
def memberNode (m : Member Schema) : Node := withMetadata m.metadata m.schema.toNode

/-- Every schema is written as a map, in which there is no metadata yet. -/
theorem exists_toNode_eq_map (s : Schema) :
    ∃ es : Entries, s.toNode = .map es ∧ "x-meta" ∉ es.keys := by
  have hadmits : s.row.admits s.toNode = true := admits_toNode s
  cases hnode : s.toNode with
  | map es =>
      rw [hnode] at hadmits
      refine ⟨es, rfl, fun hkey => ?_⟩
      obtain ⟨slot, hslot, heq⟩ := Row.exists_slot_of_fills _ hadmits hkey
      revert slot
      cases s.row <;> decide +kernel
  | null | bool | number | string | list =>
      rw [hnode] at hadmits
      cases hadmits

theorem withoutMetadata_memberNode (m : Member Schema) :
    (memberNode m).withoutMetadata = m.schema.toNode := by
  obtain ⟨es, hnode, hfree⟩ := exists_toNode_eq_map m.schema
  simp only [memberNode, withMetadata, hnode]
  split
  · rw [Node.withoutMetadata, Entries.erase_of_not_mem hfree]
  · rw [Node.withoutMetadata, Entries.erase_insert_of_not_mem hfree]

theorem toEntries_cons (before : Entries) (m : Member Schema) (rest : List (Member Schema)) :
    toEntries before (m :: rest) = toEntries (before.set m.name (memberNode m)) rest := rfl

/-- Members are merged one after the other. -/
theorem toEntries_eq_merge (properties : List (Member Schema)) : ∀ before : Entries,
    toEntries before properties =
      before.merge (properties.map fun m => (m.name, memberNode m)) := by
  induction properties with
  | nil => intro before; rfl
  | cons m rest ih => intro before; exact ih _

/-- A property on top of what is written under its name so far. -/
def onto (old : Option Node) (m : Member Schema) : Option Node :=
  some (old.elim (memberNode m) (·.merge (memberNode m)))

/-- What is written under a name: the properties with that name, merged in their order. -/
theorem get?_toEntries (name : String) (properties : List (Member Schema)) : ∀ before : Entries,
    (toEntries before properties).get? name =
      (properties.filter (·.name = name)).foldl onto (before.get? name) := by
  induction properties with
  | nil => intro before; rfl
  | cons m rest ih =>
      intro before
      rw [toEntries_cons, ih, Entries.get?_set]
      by_cases hname : m.name = name
      · rw [if_pos hname, List.filter_cons_of_pos (by simpa using hname), List.foldl_cons]
        rfl
      · rw [if_neg hname, List.filter_cons_of_neg (by simpa using hname)]

/-- A name that is not shared holds its property. -/
theorem exists_of_mem_toEntries {properties : List (Member Schema)} {name : String} {n : Node}
    (h : (name, n) ∈ toEntries [] properties)
    (hsingle : (properties.filter (·.name = name)).length < 2) :
    ∃ t ∈ (properties.filter (·.name = name)).map Member.schema,
      n.withoutMetadata = t.toNode := by
  have hget : (properties.filter (·.name = name)).foldl onto none = some n := by
    have hkeys : (toEntries [] properties).keys.Nodup :=
      toEntries_eq_merge properties [] ▸ Entries.nodup_keys_merge _ List.nodup_nil
    rw [← Entries.get?_of_mem hkeys h, get?_toEntries]
    rfl
  match hsame : properties.filter (·.name = name) with
  | [] => rw [hsame] at hget; cases hget
  | [m] =>
      rw [hsame] at hget
      obtain rfl : memberNode m = n := Option.some.inj hget
      exact ⟨m.schema, by rw [hsame]; exact List.mem_cons_self, withoutMetadata_memberNode m⟩
  | _ :: _ :: _ =>
      rw [hsame, List.length_cons, List.length_cons] at hsingle
      omega

theorem mem_ofOption {key k : String} {value : Option Node} {n : Node} :
    (k, n) ∈ Entries.ofOption key value ↔ k = key ∧ value = some n := by
  cases value <;> simp [Entries.ofOption, eq_comm]

/-- A schema that is written with a key of just one row is of that row. -/
theorem row_eq_of_mem {s : Schema} {es : Entries} (hroot : s.toNode = .map es) {key : String}
    {n : Node} (h : (key, n) ∈ es) {row : Row}
    (hrow : ∀ other : Row, (∃ slot ∈ other.slots, slot.key = key) → other = row) :
    s.row = row := by
  have hadmits : s.row.admits s.toNode = true := admits_toNode s
  rw [hroot] at hadmits
  exact hrow s.row (Row.exists_slot_of_fills _ hadmits (Entries.mem_keys_of_mem h))

theorem toNodes_eq_map (members : List Schema) : toNodes members = members.map toNode := by
  induction members with
  | nil => rfl
  | cons s rest ih => rw [toNodes, ih, List.map_cons]

/-- A step leads from the document of a schema to that of a schema under it. -/
theorem exists_of_inside {s : Schema} {step : Step} {n : Node} (h : s.toNode.Inside step n)
    (hsingle : (s.under step).length < 2) : ∃ t ∈ s.under step, n = t.toNode := by
  generalize hroot : s.toNode = root at h
  cases h with
  | property hes hn =>
      have hrow : s.row = .object := row_eq_of_mem hroot hes fun other => by
        cases other <;> decide +kernel
      match s, hrow with
      | .object properties _ _ _, _ =>
          cases hroot
          obtain rfl : _ = toEntries [] properties := by
            simpa [typeEntry, descriptionEntry, mem_ofOption, modifierEntry] using hes
          exact exists_of_mem_toEntries hn (by simpa [under] using hsingle)
  | listed hes hn =>
      have hrow : s.row = .composition := row_eq_of_mem hroot hes fun other => by
        cases other <;> decide +kernel
      match s, hrow with
      | .allOf _ flattened, _ =>
          cases hroot
          obtain rfl : _ = toEntries [] flattened := by simpa using hes
          exact exists_of_mem_toEntries hn (by simpa [under] using hsingle)
  | items hes =>
      have hrow : s.row = .array := row_eq_of_mem hroot hes fun other => by
        cases other <;> decide +kernel
      match s, hrow with
      | .array items _, _ =>
          cases hroot
          obtain rfl : n = items.toNode := by
            simpa [typeEntry, descriptionEntry, mem_ofOption] using hes
          exact ⟨items, List.mem_cons_self, rfl⟩
  | member hes hn =>
      have hrow : s.row = .composition := row_eq_of_mem hroot hes fun other => by
        cases other <;> decide +kernel
      match s, hrow with
      | .allOf members _, _ =>
          cases hroot
          obtain rfl : _ = members.map toNode := by simpa [toNodes_eq_map] using hes
          rw [List.getElem?_map] at hn
          obtain ⟨t, ht, rfl⟩ := Option.map_eq_some_iff.1 hn
          exact ⟨t, Option.mem_toList.2 ht, rfl⟩

/-- Along a path on which no name is shared stand documents of schemas only. -/
theorem exists_of_at {s : Schema} {path : List Step} {n : Node} (h : s.toNode.At path n)
    (hpath : s.clashes path = false) : ∃ t : Schema, n = t.toNode := by
  generalize hroot : s.toNode = root at h
  induction h generalizing s with
  | here n => exact ⟨s, hroot.symm⟩
  | @inside root inner n step path hstep _ ih =>
      subst hroot
      obtain ⟨hsingle, hinner⟩ := Bool.or_eq_false_iff.1 hpath
      obtain ⟨t, ht, rfl⟩ := exists_of_inside hstep (by simpa using hsingle)
      exact ih (by simpa using List.any_eq_false.1 hinner t ht) rfl

end Schema

/-- **One row at every place**: in the document of a resolved schema, every place of a schema fits
one row of the table and no other, unless two properties share a name on the way to it. -/
theorem Resolver.typeSchema_rows (r : Resolver) (t : TypeRef) (inline : Bool) (v : Visits) :
    let s := ((r.typeSchema t inline).run v).1
    ∀ {path : List Step} {n : Node}, s.toNode.At path n → s.clashes path = false →
      ∃! row : Row, row.admits n = true := by
  intro s path n hat hpath
  obtain ⟨u, rfl⟩ := Schema.exists_of_at hat hpath
  exact ⟨u.row, u.admits_toNode, fun _ hother => Row.admits_unique hother u.admits_toNode⟩

/-! A base that two structs embed; one of them has a property with the name of the base's. -/

namespace Shared

def manifest : Manifest :=
  ⟨"", [⟨"zoo", [], [
    ⟨"Base", none, "", none, some [⟨some "Id", "string", "", "", false⟩], []⟩,
    ⟨"Pet", none, "", none,
      some [⟨none, "Base", "", "", true⟩, ⟨some "Id", "any", "", "", false⟩], []⟩,
    ⟨"Visit", none, "", none,
      some [⟨none, "Base", "", "", true⟩, ⟨some "Notes", "[]string", "", "", false⟩], []⟩], []⟩]⟩

def embeddedBase : Field := ⟨"Base", .named "Base", .empty, [], true⟩

def base : Declaration :=
  ⟨"zoo.Base", "Base", "zoo", .empty, .struct [⟨"Id", .scalar .string, .empty, [], false⟩], []⟩

def pet : Declaration :=
  ⟨"zoo.Pet", "Pet", "zoo", .empty,
    .struct [embeddedBase, ⟨"Id", .interface, .empty, [], false⟩], []⟩

def visit : Declaration :=
  ⟨"zoo.Visit", "Visit", "zoo", .empty,
    .struct [embeddedBase, ⟨"Notes", .array (.scalar .string), .empty, [], false⟩], []⟩

def graph : Graph := ⟨"", ["zoo"], [("zoo", ⟨"zoo", []⟩)], [base, pet, visit], []⟩

theorem load_manifest : manifest.load = .ok graph := rfl

def document (d : Declaration) : Node :=
  (((Resolver.new graph .default).typeSchema d.ref false).run []).1.toNode

/-- The notes of a visit are texts. -/
theorem typeSchema_rows_visit :
    ∃ n, (document visit).At [.property "Notes", .items] n ∧ ∃! row : Row, row.admits n = true := by
  have hnotes : (document visit).Inside (.property "Notes")
      (.map [Schema.typeEntry "array", ("items", .map [Schema.typeEntry "string"])]) :=
    .property (List.mem_cons_of_mem _ List.mem_cons_self)
      (List.mem_cons_of_mem _ List.mem_cons_self)
  have hat : (document visit).At [.property "Notes", .items] (.map [Schema.typeEntry "string"]) :=
    .inside hnotes (.inside (.items (List.mem_cons_of_mem _ List.mem_cons_self)) (.here _))
  exact ⟨_, hat, Resolver.typeSchema_rows _ visit.ref false [] hat rfl⟩

/-- The pet has two properties named `Id`: a text and anything are merged into what is neither. -/
theorem typeSchema_mixes_rows : manifest.load = .ok graph ∧
    ∃ n, (document pet).At [.property "Id"] n ∧ ∀ row : Row, row.admits n = false := by
  refine ⟨load_manifest, .map [Schema.typeEntry "string", ("x-any", .bool true),
    ("oneOf", Schema.anyAlternatives)], .inside ?_ (.here _), fun row => by cases row <;> rfl⟩
  exact .property (List.mem_cons_of_mem _ List.mem_cons_self) List.mem_cons_self

end Shared

end SchemaWeave
