import SchemaWeave.Proofs.Resolving.Fuel
import SchemaWeave.Proofs.Resolving.Naming

/-!
What a schema is composed of. The parts of a struct are those of its fields, one field after the
other (`Resolver.shapeSchema_struct`), so the names that a type exposes are found field by field, or
by the name that it is (`Resolver.mem_exposed_shape_iff`). A composition that stands anywhere in the
schema of a shape is that schema, or came with a type that the shape meets
(`Resolver.composition_within_shape`).
-/

namespace SchemaWeave

namespace Schema

/-- The names of the properties that a schema exposes. -/
def exposed (s : Schema) : List String := (s.properties?.getD []).map Member.name

/-- The first schema stands in the second: at its root, in a property, in the items, in a member or
in the list of a composition's properties. -/
inductive Within (part : Schema) : Schema → Prop where
  | root : Within part part
  | property {properties : List (Member Schema)} {m : Member Schema} (hm : m ∈ properties)
      (h : Within part m.schema) (description : Option String) (sample : Option Node)
      (modifiers : List Modifier) : Within part (.object properties description sample modifiers)
  | items {s : Schema} (h : Within part s) (description : Option String) :
      Within part (.array s description)
  | member {members : List Schema} {s : Schema} (hs : s ∈ members) (h : Within part s)
      (flattened : List (Member Schema)) : Within part (.allOf members flattened)
  | listed {flattened : List (Member Schema)} {m : Member Schema} (hm : m ∈ flattened)
      (h : Within part m.schema) (members : List Schema) : Within part (.allOf members flattened)

theorem exposed_describe (text : String) (s : Schema) : (s.describe text).exposed = s.exposed := by
  rw [exposed, Resolver.properties?_describe, exposed]

theorem describe_eq_ref_iff {text target : String} {s : Schema} :
    s.describe text = .ref target ↔ s = .ref target := by
  unfold describe
  split
  · rfl
  · cases s <;> simp

/-- Only the root of a schema takes a description, and a composition has no room for one. -/
theorem within_describe {members : List Schema} {flattened : List (Member Schema)} {text : String}
    {s : Schema} (h : (allOf members flattened).Within (s.describe text)) :
    (allOf members flattened).Within s := by
  unfold describe at h
  split at h
  · exact h
  · cases s with
    | object properties description sample modifiers =>
        cases h with
        | property hm h => exact .property hm h _ _ _
    | array items description =>
        cases h with
        | items h => exact .items h _
    | scalar | any => cases h
    | ref | allOf | error => exact h

theorem within_of_property {part s : Schema} {m : Member Schema} (hm : m ∈ s.properties?.getD [])
    (h : part.Within m.schema) : part.Within s := by
  cases s with
  | object properties description sample modifiers => exact .property hm h _ _ _
  | allOf members flattened => exact .listed hm h _
  | array | scalar | ref | any | error => cases hm

end Schema

/-- The name that stands in a type expression, below pointers and arrays, with its qualifier. -/
def TypeExpr.innermost? : TypeExpr → Option (Option String × String)
  | .pointer target => innermost? target
  | .array element => innermost? element
  | .named name => some (none, name)
  | .qualified package name => some (some package, name)
  | .scalar _ => none
  | .interface => none
  | .func => none

/-- The type expressions that a type is made of. -/
def TypeRef.expressions (t : TypeRef) : List TypeExpr :=
  match t.shape with
  | .expr e => [e]
  | .struct fields => fields.map Field.type

/-- A name of the second type stands in the first. -/
def Graph.Meets (g : Graph) (t u : TypeRef) : Prop :=
  ∃ e ∈ t.expressions, ∃ found ∈ e.innermost?, g.resolveInFile t.file found.1 found.2 = some u

theorem Graph.declares_meets {g : Graph} {t u : TypeRef} (h : g.Meets t u) : g.Declares u := by
  obtain ⟨_, -, _, -, hfound⟩ := h
  exact declares_resolveInFile hfound

namespace Resolver

variable {r : Resolver} {next : TypeRef → Bool → Schema}

/-- A type expression resolves to what its name leads to, or else to a schema that is no reference
and has no properties. -/
theorem exprSchema_by_name (r : Resolver) (next : TypeRef → Bool → Schema) (e : TypeExpr)
    (t : TypeRef) :
    match e.name?.bind fun (qualifier, name) => r.graph.resolveInFile t.file qualifier name with
    | some u => Id.run (exprSchema r next t e) = (next u false).describe t.doc.full
    | none => (Id.run (exprSchema r next t e)).exposed = [] ∧
        ∀ target, Id.run (exprSchema r next t e) ≠ .ref target := by
  induction e with
  | pointer target ih => exact ih
  | named name =>
      simp only [TypeExpr.name?, Option.bind_some, exprSchema]
      cases r.graph.resolveInFile t.file none name with
      | none => exact ⟨rfl, fun _ h => by cases h⟩
      | some u => rfl
  | qualified package name =>
      simp only [TypeExpr.name?, Option.bind_some, exprSchema]
      cases r.graph.resolveInFile t.file (some package) name with
      | none => exact ⟨rfl, fun _ h => by cases h⟩
      | some u => rfl
  | array element =>
      refine ⟨?_, fun target h => ?_⟩
      · rw [exprSchema, Id.run_bind, Id.run_pure, Schema.exposed_describe]
        rfl
      · rw [exprSchema, Id.run_bind, Id.run_pure, Schema.describe_eq_ref_iff] at h
        cases h
  | scalar kind =>
      refine ⟨?_, fun target h => ?_⟩
      · rw [exprSchema, Id.run_pure, Schema.exposed_describe]
        rfl
      · rw [exprSchema, Id.run_pure, Schema.describe_eq_ref_iff] at h
        cases h
  | interface =>
      refine ⟨?_, fun target h => ?_⟩
      · rw [exprSchema, Id.run_pure, Schema.exposed_describe]
        rfl
      · rw [exprSchema, Id.run_pure, Schema.describe_eq_ref_iff] at h
        cases h
  | func => exact ⟨rfl, fun _ h => by cases h⟩

/-- The schema of the type that a field has. -/
def fieldSchema (r : Resolver) (next : TypeRef → Bool → Schema) (file : String) (f : Field) :
    Schema :=
  Id.run (exprSchema r next (f.ref file) f.type)

theorem fieldSchema_eq (file : String) (f : Field) :
    r.fieldSchema next file f = Id.run (shapeSchema r next (f.ref file)) := rfl

/-- The properties that an embedded field contributes. -/
def projected (r : Resolver) (next : TypeRef → Bool → Schema) (file : String) (f : Field) :
    List (Member Schema) :=
  Id.run (projection r next (f.ref file) (r.fieldSchema next file f))

/-- The parts that a field adds to those of its struct. -/
def fieldParts (r : Resolver) (next : TypeRef → Bool → Schema) (file : String) (f : Field) :
    Parts :=
  Id.run (addField r next file ⟨[], [], []⟩ f)

def Parts.append (parts others : Parts) : Parts :=
  ⟨parts.properties ++ others.properties, parts.members ++ others.members,
    parts.flattened ++ others.flattened⟩

theorem addField_eq (file : String) (parts : Parts) (f : Field) :
    Id.run (addField r next file parts f) = parts.append (r.fieldParts next file f) := by
  have hplace (s : Schema) : Id.run (placeField r next parts f (f.ref file) s) =
      parts.append (Id.run (placeField r next ⟨[], [], []⟩ f (f.ref file) s)) := by
    unfold placeField Parts.append
    split
    · cases s <;> simp
    · cases r.propertyName f <;> simp
  exact hplace _

/-- The parts of a struct with the given fields. -/
def structParts (r : Resolver) (next : TypeRef → Bool → Schema) (file : String)
    (fields : List Field) : Parts where
  properties := fields.flatMap fun f => (r.fieldParts next file f).properties
  members := fields.flatMap fun f => (r.fieldParts next file f).members
  flattened := fields.flatMap fun f => (r.fieldParts next file f).flattened

theorem structParts_cons (file : String) (f : Field) (rest : List Field) :
    r.structParts next file (f :: rest) =
      (r.fieldParts next file f).append (r.structParts next file rest) := by
  simp only [structParts, Parts.append, List.flatMap_cons]

theorem foldlM_addField (file : String) (fields : List Field) : ∀ parts : Parts,
    Id.run (fields.foldlM (addField r next file) parts) =
      parts.append (r.structParts next file fields) := by
  induction fields with
  | nil => intro parts; simp [structParts, Parts.append]
  | cons f rest ih =>
      intro parts
      rw [List.foldlM_cons, Id.run_bind, addField_eq, ih]
      simp [structParts, Parts.append]

/-- A struct has the parts of its fields. -/
theorem shapeSchema_struct {t : TypeRef} {fields : List Field} (h : t.shape = .struct fields) :
    Id.run (shapeSchema r next t) =
      (r.structParts next t.file fields).toSchema t.doc.full := by
  simp only [shapeSchema, h, Id.run_bind, Id.run_pure, foldlM_addField, Parts.append,
    List.nil_append]

theorem fieldParts_plain {file : String} {f : Field} (h : isSpliced f = false) :
    r.fieldParts next file f =
      ⟨(r.propertyName f).toList.map fun name =>
        ⟨name, r.fieldSchema next file f, f.doc.metadata, f.tag⟩, [], []⟩ := by
  simp only [fieldParts, addField, placeField, Id.run_bind, h]
  cases r.propertyName f <;> rfl

theorem fieldParts_eq_placeField (r : Resolver) (next : TypeRef → Bool → Schema) (file : String)
    (f : Field) : r.fieldParts next file f =
      Id.run (placeField r next ⟨[], [], []⟩ f (f.ref file) (r.fieldSchema next file f)) := rfl

theorem fieldParts_object {file : String} {f : Field} {properties : List (Member Schema)}
    {description : Option String} {sample : Option Node} {modifiers : List Modifier}
    (h : isSpliced f = true)
    (hs : r.fieldSchema next file f = .object properties description sample modifiers) :
    r.fieldParts next file f = ⟨properties, [], []⟩ := by
  rw [fieldParts_eq_placeField, hs]
  simp only [placeField, h, if_true]
  rfl

theorem fieldParts_member {file : String} {f : Field} (h : isSpliced f = true)
    (hs : ∀ properties description sample modifiers,
      r.fieldSchema next file f ≠ .object properties description sample modifiers) :
    r.fieldParts next file f =
      ⟨[], [r.fieldSchema next file f], r.projected next file f⟩ := by
  rw [fieldParts_eq_placeField, projected]
  generalize r.fieldSchema next file f = s at hs ⊢
  simp only [placeField, h, if_true]
  cases s with
  | object properties description sample modifiers => exact absurd rfl (hs _ _ _ _)
  | ref | array | scalar | allOf | any | error => rfl

/-- An embedded object gives up its properties; any other schema becomes a member. -/
theorem fieldParts_spliced (r : Resolver) (next : TypeRef → Bool → Schema) (file : String)
    {f : Field} (h : isSpliced f = true) :
    r.fieldParts next file f = ⟨r.projected next file f, [], []⟩ ∨
      (∀ properties description sample modifiers,
        r.fieldSchema next file f ≠ .object properties description sample modifiers) ∧
      r.fieldParts next file f =
        ⟨[], [r.fieldSchema next file f], r.projected next file f⟩ := by
  cases hs : r.fieldSchema next file f with
  | object properties description sample modifiers =>
      rw [fieldParts_object h hs, projected, hs]
      exact .inl rfl
  | ref | array | scalar | allOf | any | error =>
      have hne : ∀ properties description sample modifiers,
          r.fieldSchema next file f ≠ .object properties description sample modifiers := by
        rw [hs]
        exact fun _ _ _ _ h => by cases h
      exact .inr ⟨hs ▸ hne, hs ▸ fieldParts_member h hne⟩

theorem projected_of_ref {file target : String} {f : Field} {d : TypeRef}
    (hs : r.fieldSchema next file f = .ref target) (hd : r.definition? (f.ref file) = some d) :
    r.projected next file f = (next d true).properties?.getD [] := by
  simp only [projected, hs, projection, hd]
  rfl

/-- What the schema of an embedded field exposes is contributed. -/
theorem mem_projected_of_exposed {file name : String} {f : Field}
    (h : name ∈ (r.fieldSchema next file f).exposed) :
    name ∈ (r.projected next file f).map Member.name := by
  unfold projected
  cases hs : r.fieldSchema next file f with
  | ref target => rw [hs] at h; cases h
  | object | array | scalar | allOf | any | error => rwa [hs] at h

/-- The names of the properties that a field contributes to its struct. -/
def fieldNames (r : Resolver) (next : TypeRef → Bool → Schema) (file : String) (f : Field) :
    List String :=
  if isSpliced f then (r.projected next file f).map Member.name else (r.propertyName f).toList

theorem mem_fieldNames_iff {file name : String} {f : Field} :
    name ∈ r.fieldNames next file f ↔
      name ∈ (r.fieldParts next file f).flattened.map Member.name ∨
        name ∈ (r.fieldParts next file f).properties.map Member.name := by
  unfold fieldNames
  split
  · next h => rcases fieldParts_spliced r next file h with hparts | ⟨-, hparts⟩ <;> simp [hparts]
  · next h => simp [fieldParts_plain (Bool.eq_false_iff.2 h)]

theorem flattened_fieldParts_of_members {file : String} {f : Field}
    (h : (r.fieldParts next file f).members = []) :
    (r.fieldParts next file f).flattened = [] := by
  by_cases hspliced : isSpliced f = true
  · rcases fieldParts_spliced r next file hspliced with hparts | ⟨-, hparts⟩
    · rw [hparts]
    · rw [hparts] at h
      cases h
  · rw [fieldParts_plain (Bool.eq_false_iff.2 hspliced)]

/-- A struct exposes what its fields contribute, whether or not it is a composition. -/
theorem mem_exposed_struct {file doc name : String} {fields : List Field} :
    name ∈ ((r.structParts next file fields).toSchema doc).exposed ↔
      ∃ f ∈ fields, name ∈ r.fieldNames next file f := by
  have hparts : name ∈ ((r.structParts next file fields).toSchema doc).exposed ↔
      name ∈ (r.structParts next file fields).flattened.map Member.name ∨
        name ∈ (r.structParts next file fields).properties.map Member.name := by
    simp only [Parts.toSchema]
    split
    · next hmembers =>
        have hflattened : (r.structParts next file fields).flattened = [] := by
          rw [List.isEmpty_iff] at hmembers
          refine List.flatMap_eq_nil_iff.2 fun f hf => ?_
          exact flattened_fieldParts_of_members (List.flatMap_eq_nil_iff.1 hmembers f hf)
        rw [Schema.exposed_describe, hflattened]
        simp [Schema.exposed, Schema.properties?]
    · simp [Schema.exposed, Schema.properties?]
  rw [hparts]
  simp only [structParts, mem_fieldNames_iff, List.map_flatMap, List.mem_flatMap, ← exists_or,
    ← and_or_left]

/-- A type that is the name of another one has its schema, but for the description. -/
theorem shapeSchema_by_name (r : Resolver) (next : TypeRef → Bool → Schema) {t : TypeRef}
    {e : TypeExpr} (h : t.shape = .expr e) :
    match r.graph.next? t with
    | some u => Id.run (shapeSchema r next t) = (next u false).describe t.doc.full
    | none => (Id.run (shapeSchema r next t)).exposed = [] ∧
        ∀ target, Id.run (shapeSchema r next t) ≠ .ref target := by
  have hrun : Id.run (shapeSchema r next t) = Id.run (exprSchema r next t e) := by
    simp only [shapeSchema, h]
  have hnext : r.graph.next? t =
      e.name?.bind fun (qualifier, name) => r.graph.resolveInFile t.file qualifier name := by
    simp only [Graph.next?, h]
  rw [hrun, hnext]
  exact exprSchema_by_name r next e t

/-- **The names that a type exposes** are those of its fields, or those of the type that it is the
name of. -/
theorem mem_exposed_shape_iff {t : TypeRef} {name : String} :
    name ∈ (Id.run (shapeSchema r next t)).exposed ↔
      (∃ f ∈ t.fields, name ∈ r.fieldNames next t.file f) ∨
        ∃ u, r.graph.next? t = some u ∧ name ∈ (next u false).exposed := by
  cases hshape : t.shape with
  | struct fields =>
      rw [shapeSchema_struct hshape, mem_exposed_struct]
      simp [TypeRef.fields, Graph.next?, hshape]
  | expr e =>
      have hname := shapeSchema_by_name r next hshape
      cases hu : r.graph.next? t with
      | none =>
          rw [hu] at hname
          simp [hname.1, TypeRef.fields, hshape]
      | some u =>
          rw [hu] at hname
          simp [hname, Schema.exposed_describe, TypeRef.fields, hshape]

/-- A type is written as a reference if the type that it is the name of is. -/
theorem shape_eq_ref_iff {t : TypeRef} {target : String} :
    Id.run (shapeSchema r next t) = .ref target ↔
      ∃ u, r.graph.next? t = some u ∧ next u false = .ref target := by
  cases hshape : t.shape with
  | struct fields =>
      rw [shapeSchema_struct hshape]
      simp only [Parts.toSchema, Graph.next?, hshape]
      split <;> simp [Schema.describe_eq_ref_iff]
  | expr e =>
      have hname := shapeSchema_by_name r next hshape
      cases hu : r.graph.next? t with
      | none =>
          rw [hu] at hname
          simp [hname.2]
      | some u =>
          rw [hu] at hname
          simp [hname, Schema.describe_eq_ref_iff]

section Within

variable {members : List Schema} {flattened : List (Member Schema)}

/-- A composition in the schema of a type expression came with the type that its name leads to. -/
theorem composition_within_expr (e : TypeExpr) : ∀ t : TypeRef,
    (Schema.allOf members flattened).Within (Id.run (exprSchema r next t e)) →
      ∃ found ∈ e.innermost?, ∃ u, r.graph.resolveInFile t.file found.1 found.2 = some u ∧
        (Schema.allOf members flattened).Within (next u false) := by
  have hname {doc shown : String} {found : Option TypeRef}
      (h : (Schema.allOf members flattened).Within (Id.run (resolveName next doc shown found))) :
      ∃ u, found = some u ∧ (Schema.allOf members flattened).Within (next u false) := by
    cases found with
    | none => cases h
    | some u => exact ⟨u, rfl, Schema.within_describe h⟩
  induction e with
  | pointer target ih => exact ih
  | array element ih =>
      intro t h
      rw [exprSchema, Id.run_bind, Id.run_pure] at h
      cases Schema.within_describe h with
      | items h => exact ih (.anonymous t.file element) h
  | named name => intro t h; exact ⟨_, rfl, hname h⟩
  | qualified package name => intro t h; exact ⟨_, rfl, hname h⟩
  | scalar | interface =>
      intro t h
      rw [exprSchema, Id.run_pure] at h
      cases Schema.within_describe h
  | func => intro t h; cases h

/-- A schema stands in one of the parts. -/
inductive Parts.Holds (part : Schema) (parts : Parts) : Prop where
  | property {m : Member Schema} (hm : m ∈ parts.properties) (h : part.Within m.schema)
  | member {s : Schema} (hs : s ∈ parts.members) (h : part.Within s)
  | listed {m : Member Schema} (hm : m ∈ parts.flattened) (h : part.Within m.schema)

theorem Parts.eq_or_holds {parts : Parts} {doc : String}
    (h : (Schema.allOf members flattened).Within (parts.toSchema doc)) :
    .allOf members flattened = parts.toSchema doc ∨ parts.Holds (.allOf members flattened) := by
  have hobject (h : (Schema.allOf members flattened).Within
      ((Schema.object parts.properties none none []).describe doc)) :
      parts.Holds (.allOf members flattened) := by
    cases Schema.within_describe h with
    | property hm h => exact .property hm h
  by_cases hempty : parts.members.isEmpty = true
  · simp only [Parts.toSchema, hempty, if_true] at h
    exact .inr (hobject h)
  · simp only [Parts.toSchema, hempty] at h ⊢
    cases h with
    | root => exact .inl rfl
    | member hs h =>
        rcases List.mem_append.1 hs with hs | hs
        · exact .inr (.member hs h)
        · obtain rfl := List.mem_singleton.1 hs
          exact .inr (hobject h)
    | listed hm h =>
        rcases List.mem_append.1 hm with hm | hm
        · exact .inr (.listed hm h)
        · exact .inr (.property hm h)

/-- The properties that an embedded field contributes are those of its schema, or are looked up at
the definition behind a reference. -/
theorem mem_projected {file : String} {f : Field} {m : Member Schema}
    (h : m ∈ r.projected next file f) :
    m ∈ (r.fieldSchema next file f).properties?.getD [] ∨
      ∃ target d, r.fieldSchema next file f = .ref target ∧
        r.definition? (f.ref file) = some d ∧ m ∈ (next d true).properties?.getD [] := by
  unfold projected at h
  cases hs : r.fieldSchema next file f with
  | ref target =>
      simp only [hs, projection] at h
      cases hd : r.definition? (f.ref file) with
      | none => rw [hd] at h; cases h
      | some d =>
          rw [hd] at h
          exact .inr ⟨target, d, rfl, rfl, h⟩
  | object | array | scalar | allOf | any | error =>
      rw [hs] at h
      exact .inl h

theorem composition_within_parts {file : String} {f : Field}
    (h : (r.fieldParts next file f).Holds (.allOf members flattened)) :
    (Schema.allOf members flattened).Within (r.fieldSchema next file f) ∨
      isSpliced f = true ∧ ∃ target d, r.fieldSchema next file f = .ref target ∧
        r.definition? (f.ref file) = some d ∧ ∃ m ∈ (next d true).properties?.getD [],
          (Schema.allOf members flattened).Within m.schema := by
  by_cases hspliced : isSpliced f = true
  · have hprojected {m : Member Schema} (hm : m ∈ r.projected next file f)
        (h : (Schema.allOf members flattened).Within m.schema) :
        (Schema.allOf members flattened).Within (r.fieldSchema next file f) ∨
          isSpliced f = true ∧ ∃ target d, r.fieldSchema next file f = .ref target ∧
            r.definition? (f.ref file) = some d ∧ ∃ m ∈ (next d true).properties?.getD [],
              (Schema.allOf members flattened).Within m.schema := by
      rcases mem_projected hm with hm | ⟨target, d, href, hd, hm⟩
      · exact .inl (Schema.within_of_property hm h)
      · exact .inr ⟨hspliced, target, d, href, hd, m, hm, h⟩
    rcases fieldParts_spliced r next file hspliced with hparts | ⟨-, hparts⟩ <;>
      rw [hparts] at h
    · cases h with
      | property hm h => exact hprojected hm h
      | member hs h => cases hs
      | listed hm h => cases hm
    · cases h with
      | property hm h => cases hm
      | member hs h =>
          obtain rfl := List.mem_singleton.1 hs
          exact .inl h
      | listed hm h => exact hprojected hm h
  · rw [fieldParts_plain (Bool.eq_false_iff.2 hspliced)] at h
    cases h with
    | property hm h =>
        obtain ⟨name, -, rfl⟩ := List.mem_map.1 hm
        exact .inl h
    | member hs h => cases hs
    | listed hm h => cases hm

/-- **Where a composition comes from**: one that stands in the schema of a shape is that of a
struct, or came with a type whose name stands there, or with one that an embedding looked up. -/
theorem composition_within_shape {t : TypeRef}
    (h : (Schema.allOf members flattened).Within (Id.run (shapeSchema r next t))) :
    (t.isStruct = true ∧ .allOf members flattened = Id.run (shapeSchema r next t)) ∨
      (∃ u, r.graph.Meets t u ∧ (Schema.allOf members flattened).Within (next u false)) ∨
      ∃ f ∈ t.fields, isSpliced f = true ∧ ∃ target d, r.fieldSchema next t.file f = .ref target ∧
        r.definition? (f.ref t.file) = some d ∧ ∃ m ∈ (next d true).properties?.getD [],
          (Schema.allOf members flattened).Within m.schema := by
  cases hshape : t.shape with
  | expr e =>
      simp only [shapeSchema, hshape] at h
      obtain ⟨found, hfound, u, hu, h⟩ := composition_within_expr e t h
      have hmem : e ∈ t.expressions := by simp [TypeRef.expressions, hshape]
      exact .inr (.inl ⟨u, ⟨e, hmem, found, hfound, hu⟩, h⟩)
  | struct fields =>
      rw [shapeSchema_struct hshape] at h ⊢
      have hstruct : t.isStruct = true := by simp [TypeRef.isStruct, hshape]
      refine (Parts.eq_or_holds h).imp (⟨hstruct, ·⟩) fun hparts => ?_
      obtain ⟨f, hf, hparts⟩ : ∃ f ∈ fields,
          (r.fieldParts next t.file f).Holds (.allOf members flattened) := by
        cases hparts with
        | property hm h =>
            obtain ⟨f, hf, hm⟩ := List.mem_flatMap.1 hm
            exact ⟨f, hf, .property hm h⟩
        | member hs h =>
            obtain ⟨f, hf, hs⟩ := List.mem_flatMap.1 hs
            exact ⟨f, hf, .member hs h⟩
        | listed hm h =>
            obtain ⟨f, hf, hm⟩ := List.mem_flatMap.1 hm
            exact ⟨f, hf, .listed hm h⟩
      rcases composition_within_parts hparts with h | ⟨hspliced, target, d, href, hd, hm⟩
      · obtain ⟨found, hfound, u, hu, h⟩ := composition_within_expr f.type (f.ref t.file) h
        have hmem : f.type ∈ t.expressions := by
          simpa [TypeRef.expressions, hshape] using ⟨f, hf, rfl⟩
        exact .inl ⟨u, ⟨f.type, hmem, found, hfound, hu⟩, h⟩
      · have hmem : f ∈ t.fields := by simpa [TypeRef.fields, hshape] using hf
        exact .inr ⟨f, hmem, hspliced, target, d, href, hd, hm⟩

/-- Parts with a member make a composition, and others do not. -/
theorem Parts.toSchema_eq_allOf {parts : Parts} {doc : String}
    (h : parts.toSchema doc = .allOf members flattened) :
    parts.members ≠ [] ∧
      members = parts.members ++
        [(Schema.object parts.properties none none []).describe doc] ∧
      flattened = parts.flattened ++ parts.properties := by
  simp only [Parts.toSchema] at h
  split at h
  · -- without a member the schema is an object
    unfold Schema.describe at h
    split at h <;> cases h
  · next hmembers =>
      obtain ⟨rfl, rfl⟩ := Schema.allOf.inj h
      exact ⟨fun hnil => hmembers (List.isEmpty_iff.2 hnil), rfl, rfl⟩

/-- The schema of a struct that is a composition: the members that its embedded fields add, then an
object with its properties; all that these expose is listed. -/
theorem composition_of_struct {t : TypeRef} (hstruct : t.isStruct = true)
    (h : .allOf members flattened = Id.run (shapeSchema r next t)) :
    let parts := r.structParts next t.file t.fields
    members = parts.members ++
        [(Schema.object parts.properties none none []).describe t.doc.full] ∧
      flattened = parts.flattened ++ parts.properties := by
  cases hshape : t.shape with
  | expr e => simp [TypeRef.isStruct, hshape] at hstruct
  | struct fields =>
      have hfields : t.fields = fields := by simp [TypeRef.fields, hshape]
      rw [hfields]
      rw [shapeSchema_struct hshape] at h
      exact (Parts.toSchema_eq_allOf h.symm).2

/-- The members of a composition are the schemas of its embedded fields, and an object whose
properties are listed. -/
theorem members_of_shape {t : TypeRef} (hstruct : t.isStruct = true)
    (h : .allOf members flattened = Id.run (shapeSchema r next t)) {s : Schema}
    (hs : s ∈ members) :
    (∃ f ∈ t.fields, isSpliced f = true ∧ r.fieldSchema next t.file f = s) ∨
      s.exposed ⊆ flattened.map Member.name ∧ ∀ target, s ≠ .ref target := by
  obtain ⟨rfl, rfl⟩ := composition_of_struct hstruct h
  rcases List.mem_append.1 hs with hs | hs
  · obtain ⟨f, hf, hs⟩ := List.mem_flatMap.1 hs
    by_cases hspliced : isSpliced f = true
    · rcases fieldParts_spliced r next t.file hspliced with hparts | ⟨-, hparts⟩ <;>
        rw [hparts] at hs
      · cases hs
      · exact .inl ⟨f, hf, hspliced, (List.mem_singleton.1 hs).symm⟩
    · rw [fieldParts_plain (Bool.eq_false_iff.2 hspliced)] at hs
      cases hs
  · obtain rfl := List.mem_singleton.1 hs
    refine .inr ⟨?_, fun target href => ?_⟩
    · rw [Schema.exposed_describe, List.map_append]
      exact List.subset_append_right _ _
    · cases Schema.describe_eq_ref_iff.1 href

end Within

end Resolver

end SchemaWeave
