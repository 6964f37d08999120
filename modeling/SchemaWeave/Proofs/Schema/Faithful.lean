import SchemaWeave.Proofs.Schema.Composition
import SchemaWeave.Proofs.Schema.Rows

/-!
What a document says about the schema that it is written from: everything but the tags of its
properties.

Two schemas with one document are written as one row, so they are of one kind, and every field is
found under its key, whatever the data in the other fields looks like (`Schema.object_eq_of_toNode`
and the lemmas after it). Under distinct names properties are written one after the other
(`Schema.toEntries_of_nodup`), and the metadata of each can be told from its schema
(`Schema.eq_of_memberNode`). So lists of properties agree one by one, and with them the schemas
(`Schema.toNode_eq_iff`).
-/

namespace SchemaWeave

/-- What one function tells apart, another one does, item by item. -/
theorem map_eq_map_of_map_eq {α β γ : Type} {f : α → β} {g : α → γ} {xs : List α} :
    ∀ {ys : List α}, (∀ x ∈ xs, ∀ y ∈ ys, f x = f y → g x = g y) → xs.map f = ys.map f →
      xs.map g = ys.map g := by
  induction xs with
  | nil =>
      intro ys _ h
      cases ys with
      | nil => rfl
      | cons y ys => cases h
  | cons x xs ih =>
      intro ys hfg h
      cases ys with
      | nil => cases h
      | cons y ys =>
          obtain ⟨hhead, htail⟩ := List.cons.inj h
          have hfirst : g x = g y := hfg x List.mem_cons_self y List.mem_cons_self hhead
          have hrest : xs.map g = ys.map g := by
            refine ih (fun a ha b hb => ?_) htail
            exact hfg a (List.mem_cons_of_mem _ ha) b (List.mem_cons_of_mem _ hb)
          rw [List.map_cons, List.map_cons, hfirst, hrest]

namespace Entries

@[simp] theorem get?_ofOption (key k : String) (value : Option Node) :
    get? key (ofOption k value) = if k = key then value else none := by
  cases value with
  | none => simp [ofOption]
  | some v => simp [ofOption]

/-- A list is written only if there is something in it. -/
def unlessEmpty {α : Type} (write : List α → Node) (items : List α) : Option Node :=
  if items.isEmpty then none else some (write items)

theorem unlessEmpty_injective {α : Type} {write : List α → Node}
    (hwrite : Function.Injective write) : Function.Injective (unlessEmpty write) := by
  intro xs ys h
  cases xs with
  | nil =>
      cases ys with
      | nil => rfl
      | cons y ys => cases h
  | cons x xs =>
      cases ys with
      | nil => cases h
      | cons y ys => exact hwrite (Option.some.inj h)

end Entries

namespace Schema

open Entries (unlessEmpty unlessEmpty_injective)

/-- What holds of a schema if it holds of every schema in it, holds of every schema. -/
theorem induction {motive : Schema → Prop}
    (object : ∀ (properties : List (Member Schema)) description sample modifiers,
      (∀ m ∈ properties, motive m.schema) →
        motive (.object properties description sample modifiers))
    (array : ∀ items description, motive items → motive (.array items description))
    (scalar : ∀ s, motive (.scalar s)) (ref : ∀ target, motive (.ref target))
    (allOf : ∀ (members : List Schema) (flattened : List (Member Schema)),
      (∀ s ∈ members, motive s) → (∀ m ∈ flattened, motive m.schema) →
        motive (.allOf members flattened))
    (any : ∀ description, motive (.any description))
    (error : ∀ message severity, motive (.error message severity)) (s : Schema) : motive s :=
  @Schema.rec
    motive
    (fun properties => ∀ m ∈ properties, motive m.schema)
    (fun members => ∀ s ∈ members, motive s)
    (fun m => motive m.schema)
    object array scalar ref allOf any error
    nofun
    (fun _ _ hfirst hrest => List.forall_mem_cons.2 ⟨hfirst, hrest⟩)
    nofun
    (fun _ _ hfirst hrest => List.forall_mem_cons.2 ⟨hfirst, hrest⟩)
    (fun _ _ _ _ hschema => hschema)
    s

mutual

/-- The schema with all tags of properties taken out, at every depth. -/
def untagged : Schema → Schema
  | .object properties description sample modifiers =>
    .object (untaggedMembers properties) description sample modifiers
  | .array items description => .array (untagged items) description
  | .scalar s => .scalar s
  | .ref target => .ref target
  | .allOf members flattened => .allOf (untaggedList members) (untaggedMembers flattened)
  | .any description => .any description
  | .error message severity => .error message severity

def untaggedMembers : List (Member Schema) → List (Member Schema)
  | [] => []
  | ⟨name, schema, metadata, _⟩ :: rest =>
    ⟨name, untagged schema, metadata, []⟩ :: untaggedMembers rest

def untaggedList : List Schema → List Schema
  | [] => []
  | schema :: rest => untagged schema :: untaggedList rest

end

theorem untaggedMembers_eq_map (properties : List (Member Schema)) :
    untaggedMembers properties =
      properties.map fun m => ⟨m.name, m.schema.untagged, m.metadata, []⟩ := by
  induction properties with
  | nil => rfl
  | cons m rest ih => rw [untaggedMembers, ih, List.map_cons]

theorem untaggedList_eq_map (members : List Schema) :
    untaggedList members = members.map untagged := by
  induction members with
  | nil => rfl
  | cons s rest ih => rw [untaggedList, ih, List.map_cons]

/-- In every object and in every list of a composition's properties, names are distinct. -/
def HasDistinctNames (s : Schema) : Prop := ∀ part : Schema, part.Within s → part.exposed.Nodup

section DistinctNames

variable {properties flattened : List (Member Schema)} {members : List Schema}
  {description : Option String} {sample : Option Node} {modifiers : List Modifier}

@[simp] theorem hasDistinctNames_object :
    (object properties description sample modifiers).HasDistinctNames ↔
      (properties.map Member.name).Nodup ∧ ∀ m ∈ properties, m.schema.HasDistinctNames := by
  constructor
  · intro h
    exact ⟨h _ .root, fun m hm part hpart => h part (.property hm hpart _ _ _)⟩
  · rintro ⟨hnames, hschemas⟩ part hpart
    cases hpart with
    | root => exact hnames
    | property hm h => exact hschemas _ hm part h

@[simp] theorem hasDistinctNames_array {items : Schema} :
    (array items description).HasDistinctNames ↔ items.HasDistinctNames := by
  constructor
  · intro h part hpart
    exact h part (.items hpart _)
  · intro hitems part hpart
    cases hpart with
    | root => exact List.nodup_nil
    | items h => exact hitems part h

@[simp] theorem hasDistinctNames_allOf :
    (allOf members flattened).HasDistinctNames ↔
      (flattened.map Member.name).Nodup ∧ (∀ s ∈ members, s.HasDistinctNames) ∧
        ∀ m ∈ flattened, m.schema.HasDistinctNames := by
  constructor
  · intro h
    exact ⟨h _ .root, fun s hs part hpart => h part (.member hs hpart _),
      fun m hm part hpart => h part (.listed hm hpart _)⟩
  · rintro ⟨hnames, hmembers, hlisted⟩ part hpart
    cases hpart with
    | root => exact hnames
    | member hs h => exact hmembers _ hs part h
    | listed hm h => exact hlisted _ hm part h

/-- A schema in which no other one stands, and that exposes no names. -/
theorem hasDistinctNames_leaf {s : Schema} (hnone : s.exposed = [])
    (hleaf : ∀ part : Schema, part.Within s → part = s) : s.HasDistinctNames := by
  intro part hpart
  rw [hleaf part hpart, hnone]
  exact List.nodup_nil

@[simp] theorem hasDistinctNames_scalar (s : ScalarSchema) : (scalar s).HasDistinctNames :=
  hasDistinctNames_leaf rfl (by rintro _ ⟨⟩; rfl)

@[simp] theorem hasDistinctNames_ref (target : String) : (ref target).HasDistinctNames :=
  hasDistinctNames_leaf rfl (by rintro _ ⟨⟩; rfl)

@[simp] theorem hasDistinctNames_error (message : String) (severity : Severity) :
    (error message severity).HasDistinctNames :=
  hasDistinctNames_leaf rfl (by rintro _ ⟨⟩; rfl)

end DistinctNames

/-- Two schemas with one document are of one kind. -/
theorem row_eq_of_toNode {s t : Schema} (h : s.toNode = t.toNode) : s.row = t.row :=
  Row.admits_unique s.admits_toNode (h ▸ t.admits_toNode)

/-! The fields of two schemas of one kind, from what stands under their keys. -/

section Fields

variable {description other : Option String}

theorem modifierEntry_eq (modifiers : List Modifier) :
    modifierEntry modifiers = Entries.ofOption "modify"
      (unlessEmpty (fun calls => .list (calls.map Modifier.toNode)) modifiers) := by
  cases modifiers <;> rfl

theorem constantsEntry_eq (constants : List Node) :
    constantsEntry constants = Entries.ofOption "enum" (unlessEmpty .list constants) := by
  cases constants <;> rfl

theorem modifierNode_injective : Function.Injective Modifier.toNode := by
  intro first second h
  cases first
  cases second
  simpa [Modifier.toNode] using h

theorem calls_injective :
    Function.Injective fun calls : List Modifier => Node.list (calls.map Modifier.toNode) :=
  fun _ _ h => (List.map_inj_right modifierNode_injective).1 (Node.list.inj h)

theorem keyword_injective : Function.Injective ScalarKind.keyword := by
  intro first second h
  cases first <;> cases second <;> first | rfl | exact absurd h (by decide)

theorem text_injective : Function.Injective (Option.map Node.string) :=
  Option.map_injective fun _ _ => Node.string.inj

theorem object_eq_of_toNode {properties others : List (Member Schema)}
    {sample sample' : Option Node} {modifiers calls : List Modifier}
    (h : (object properties description sample modifiers).toNode =
      (object others other sample' calls).toNode) :
    toEntries [] properties = toEntries [] others ∧ description = other ∧ sample = sample' ∧
      modifiers = calls := by
  have hget (key : String) := congrArg (Node.get? key) h
  simp only [toNode, typeEntry, descriptionEntry, modifierEntry_eq] at hget
  refine ⟨by simpa using hget "properties", text_injective ?_, by simpa using hget "example",
    unlessEmpty_injective calls_injective ?_⟩
  · simpa using hget "description"
  · simpa using hget "modify"

theorem array_eq_of_toNode {items items' : Schema}
    (h : (array items description).toNode = (array items' other).toNode) :
    items.toNode = items'.toNode ∧ description = other := by
  have hget (key : String) := congrArg (Node.get? key) h
  simp only [toNode, typeEntry, descriptionEntry] at hget
  refine ⟨by simpa using hget "items", text_injective ?_⟩
  simpa using hget "description"

theorem scalar_eq_of_toNode {s t : ScalarSchema} (h : (scalar s).toNode = (scalar t).toNode) :
    s = t := by
  have hget (key : String) := congrArg (Node.get? key) h
  simp only [toNode, scalarNode, typeEntry, descriptionEntry, constantsEntry_eq] at hget
  have hkind : s.kind = t.kind := keyword_injective (by simpa using hget "type")
  have hdescription : s.description = t.description :=
    text_injective (by simpa using hget "description")
  have hconstants : s.constants = t.constants :=
    unlessEmpty_injective (fun _ _ => Node.list.inj) (by simpa using hget "enum")
  have hfallback : s.fallback = t.fallback := by simpa using hget "default"
  have hsample : s.sample = t.sample := by simpa using hget "example"
  cases s
  cases t
  simp_all

theorem any_eq_of_toNode (h : (any description).toNode = (any other).toNode) :
    description = other := by
  have hget := congrArg (Node.get? "description") h
  simp only [toNode, descriptionEntry] at hget
  exact text_injective (by simpa using hget)

end Fields

/-! The properties of two schemas. -/

theorem toEntries_of_nodup {properties : List (Member Schema)}
    (h : (properties.map Member.name).Nodup) :
    toEntries [] properties = properties.map fun m => (m.name, memberNode m) := by
  rw [toEntries_eq_merge, Entries.merge_of_nodup, List.nil_append]
  simpa [Entries.keys, Function.comp_def] using h

theorem get?_memberNode (m : Member Schema) :
    (memberNode m).get? "x-meta" = unlessEmpty .map m.metadata := by
  -- No schema writes this key itself, also where its data holds it.
  obtain ⟨es, hnode, hfree⟩ := exists_toNode_eq_map m.schema
  have hnone : es.get? "x-meta" = none := Entries.get?_of_not_mem hfree
  simp only [memberNode, withMetadata, hnode, unlessEmpty]
  split
  · exact hnone
  · simp [Entries.insert_of_not_mem hfree, hnone]

/-- A schema and the metadata that is written into it can be told apart. -/
theorem eq_of_memberNode {m other : Member Schema} (h : memberNode m = memberNode other) :
    m.schema.toNode = other.schema.toNode ∧ m.metadata = other.metadata := by
  constructor
  · rw [← withoutMetadata_memberNode m, h, withoutMetadata_memberNode]
  · refine unlessEmpty_injective (fun _ _ => Node.map.inj) ?_
    rw [← get?_memberNode, h, get?_memberNode]

/-- Lists of properties with one document, if their schemas are determined by their documents. -/
theorem untaggedMembers_eq_of_toEntries {properties others : List (Member Schema)}
    (hnames : (properties.map Member.name).Nodup) (hothers : (others.map Member.name).Nodup)
    (hschemas : ∀ m ∈ properties, ∀ other ∈ others,
      m.schema.toNode = other.schema.toNode → m.schema.untagged = other.schema.untagged)
    (h : toEntries [] properties = toEntries [] others) :
    untaggedMembers properties = untaggedMembers others := by
  rw [toEntries_of_nodup hnames, toEntries_of_nodup hothers] at h
  rw [untaggedMembers_eq_map, untaggedMembers_eq_map]
  refine map_eq_map_of_map_eq (fun m hm other hother heq => ?_) h
  obtain ⟨hname, hnode⟩ := Prod.mk.inj heq
  obtain ⟨hschema, hmetadata⟩ := eq_of_memberNode hnode
  rw [hname, hschemas m hm other hother hschema, hmetadata]

theorem toEntries_untagged {properties : List (Member Schema)}
    (hschemas : ∀ m ∈ properties, m.schema.untagged.toNode = m.schema.toNode) :
    ∀ before : Entries,
      toEntries before (untaggedMembers properties) = toEntries before properties := by
  induction properties with
  | nil => intro before; rfl
  | cons m rest ih =>
      intro before
      obtain ⟨hschema, hrest⟩ := List.forall_mem_cons.1 hschemas
      rw [untaggedMembers, toEntries, hschema, ih hrest]
      rfl

/-- Tags are not written. -/
theorem toNode_untagged (s : Schema) : s.untagged.toNode = s.toNode := by
  induction s using Schema.induction with
  | object properties description sample modifiers ih =>
      rw [untagged, toNode, toNode, toEntries_untagged ih]
  | array items description ih => rw [untagged, toNode, toNode, ih]
  | allOf members flattened hmembers hflattened =>
      have hnodes : toNodes (untaggedList members) = toNodes members := by
        rw [untaggedList_eq_map, toNodes_eq_map, toNodes_eq_map, List.map_map]
        exact List.map_congr_left hmembers
      rw [untagged, toNode, toNode, hnodes, toEntries_untagged hflattened]
  | scalar | ref | any | error => rfl

/-- One document, one schema, but for the tags. -/
theorem untagged_eq_of_toNode {s : Schema} (hs : s.HasDistinctNames) :
    ∀ {t : Schema}, t.HasDistinctNames → s.toNode = t.toNode → s.untagged = t.untagged := by
  -- The rows agree, so in each case the second schema has the constructor of the first.
  induction s using Schema.induction with
  | object properties description sample modifiers ih =>
      intro t ht h
      match t, row_eq_of_toNode h with
      | .object others _ _ _, _ =>
          obtain ⟨hproperties, rfl, rfl, rfl⟩ := object_eq_of_toNode h
          obtain ⟨hnames, hschemas⟩ := hasDistinctNames_object.1 hs
          obtain ⟨hothers, hothers'⟩ := hasDistinctNames_object.1 ht
          rw [untagged, untagged, untaggedMembers_eq_of_toEntries hnames hothers _ hproperties]
          exact fun m hm other hother => ih m hm (hschemas m hm) (hothers' other hother)
  | array items description ih =>
      intro t ht h
      match t, row_eq_of_toNode h with
      | .array items' _, _ =>
          obtain ⟨hitems, rfl⟩ := array_eq_of_toNode h
          have huntagged : items.untagged = items'.untagged :=
            ih (hasDistinctNames_array.1 hs) (hasDistinctNames_array.1 ht) hitems
          rw [untagged, untagged, huntagged]
  | scalar s =>
      intro t _ h
      match t, row_eq_of_toNode h with
      | .scalar t, _ => rw [scalar_eq_of_toNode h]
  | ref target =>
      intro t _ h
      match t, row_eq_of_toNode h with
      | .ref _, _ => simpa [toNode, untagged] using h
  | allOf members flattened hmembers hflattened =>
      intro t ht h
      match t, row_eq_of_toNode h with
      | .allOf parts listed, _ =>
          obtain ⟨hnodes, hentries⟩ : toNodes members = toNodes parts ∧
              toEntries [] flattened = toEntries [] listed := by
            simpa [toNode] using h
          obtain ⟨hnames, hs, hschemas⟩ := hasDistinctNames_allOf.1 hs
          obtain ⟨hlisted, ht, hlisted'⟩ := hasDistinctNames_allOf.1 ht
          have hparts : untaggedList members = untaggedList parts := by
            rw [toNodes_eq_map, toNodes_eq_map] at hnodes
            rw [untaggedList_eq_map, untaggedList_eq_map]
            refine map_eq_map_of_map_eq (fun s hmem t hmem' => ?_) hnodes
            exact hmembers s hmem (hs s hmem) (ht t hmem')
          rw [untagged, untagged, hparts,
            untaggedMembers_eq_of_toEntries hnames hlisted _ hentries]
          exact fun m hm other hother => hflattened m hm (hschemas m hm) (hlisted' other hother)
  | any description =>
      intro t _ h
      match t, row_eq_of_toNode h with
      | .any _, _ => rw [any_eq_of_toNode h]
  | error message severity =>
      intro t _ h
      match t, severity, row_eq_of_toNode h with
      | .error _ .hard, .hard, _ | .error _ .soft, .soft, _ => simpa [toNode, untagged] using h

/-- **A schema is determined by its document, but for the tags.** Where the names in every object
and in every composition's list are distinct, two schemas are written as one document exactly if
they are the same without the tags of their properties. -/
theorem toNode_eq_iff {s t : Schema} (hs : s.HasDistinctNames) (ht : t.HasDistinctNames) :
    s.toNode = t.toNode ↔ s.untagged = t.untagged := by
  constructor
  · exact untagged_eq_of_toNode hs ht
  · intro h
    rw [← toNode_untagged s, h, toNode_untagged]

/-! Data that looks like documents of schemas, in every place that takes data. -/

namespace Lookalike

/-- A composition of a pet; its identifier may have a default. -/
def pet (tag : Dictionary) (fallback : Option Node) : Schema :=
  .allOf [.ref "zoo.Base", .array (.ref "zoo.Pet") (some "items")]
    [⟨"properties", .scalar ⟨.string, some "x-any", [toNode (.ref "zoo.Pet")], fallback,
        some (toNode (.any none))⟩, [("type", .string "object"), ("x-meta", .map [])], tag⟩,
      ⟨"owner", .object [⟨"x-meta", .ref "zoo.Owner", [], tag⟩] none
        (some (.map [("properties", .map [])])) [⟨"required", [toNode (softError "id")]⟩], [], tag⟩]

theorem pet_hasDistinctNames (tag : Dictionary) (fallback : Option Node) :
    (pet tag fallback).HasDistinctNames := by
  simp [pet]

/-- With other tags the pet has the same document, and a default of null is told from none. -/
theorem toNode_eq_iff_pet :
    let tagged := pet [("json", "id")] none
    let plain := pet [] none
    let defaulted := pet [] (some .null)
    (tagged.HasDistinctNames ∧ plain.HasDistinctNames ∧ defaulted.HasDistinctNames) ∧
      tagged.toNode = plain.toNode ∧ tagged.untagged = plain.untagged ∧
      plain.toNode ≠ defaulted.toNode := by
  intro tagged plain defaulted
  have htagged : tagged.HasDistinctNames := pet_hasDistinctNames _ _
  have hplain : plain.HasDistinctNames := pet_hasDistinctNames _ _
  have hdefaulted : defaulted.HasDistinctNames := pet_hasDistinctNames _ _
  have hsame : tagged.toNode = plain.toNode := rfl
  refine ⟨⟨htagged, hplain, hdefaulted⟩, hsame, (toNode_eq_iff htagged hplain).1 hsame, fun h => ?_⟩
  have huntagged : plain.untagged = defaulted.untagged := (toNode_eq_iff hplain hdefaulted).1 h
  simp [plain, defaulted, pet, untagged, untaggedMembers] at huntagged

end Lookalike

end Schema

end SchemaWeave
