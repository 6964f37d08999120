import SchemaWeave.Proofs.Resolving.Simulation

/-!
The errors in a schema, at every place where one can stand: in properties and items, in the members
of a composition and in the list of their properties. What a shape resolves to has no errors but
those that it makes itself and those of the types that it meets (`Resolver.source_of_shape`).

`Schema.Holds` leaves that list of properties out, as `hasError` does: a schema is without a hard
error to `containsHardError` exactly if it is `Sound`.
-/

namespace SchemaWeave

/-- What an error in a schema says, and how it is reported. -/
abbrev SchemaError := String × Severity

namespace Schema

mutual

/-- All errors in the tree. -/
def errors : Schema → List SchemaError
  | .error message severity => [(message, severity)]
  | .object properties _ _ _ => memberErrors properties
  | .array items _ => errors items
  | .allOf members flattened => listErrors members ++ memberErrors flattened
  | .scalar _ => []
  | .ref _ => []
  | .any _ => []

def memberErrors : List (Member Schema) → List SchemaError
  | [] => []
  | ⟨_, schema, _, _⟩ :: rest => errors schema ++ memberErrors rest

def listErrors : List Schema → List SchemaError
  | [] => []
  | schema :: rest => errors schema ++ listErrors rest

end

theorem memberErrors_append (ms ns : List (Member Schema)) :
    memberErrors (ms ++ ns) = memberErrors ms ++ memberErrors ns := by
  induction ms with
  | nil => rfl
  | cons m rest ih => simp [memberErrors, ih]

theorem listErrors_append (ss ts : List Schema) :
    listErrors (ss ++ ts) = listErrors ss ++ listErrors ts := by
  induction ss with
  | nil => rfl
  | cons s rest ih => simp [listErrors, ih]

theorem errors_describe (text : String) (s : Schema) : (s.describe text).errors = s.errors := by
  unfold describe
  split
  · rfl
  · cases s <;> rfl

/-- The errors in the properties that a schema exposes are errors in it. -/
theorem mem_errors_of_properties {s : Schema} {e : SchemaError}
    (h : e ∈ memberErrors (s.properties?.getD [])) : e ∈ s.errors := by
  cases s with
  | object properties description sample modifiers => exact h
  | allOf members flattened => exact List.mem_append_right _ h
  | array | scalar | ref | any | error => cases h

/-- An error stands at the root of a schema, in a property, in the items or in a member. -/
inductive Holds (e : SchemaError) : Schema → Prop where
  | root : Holds e (.error e.1 e.2)
  | property {properties : List (Member Schema)} {m : Member Schema} (hm : m ∈ properties)
      (h : Holds e m.schema) (description : Option String) (sample : Option Node)
      (modifiers : List Modifier) : Holds e (.object properties description sample modifiers)
  | items {s : Schema} (h : Holds e s) (description : Option String) :
      Holds e (.array s description)
  | member {members : List Schema} {s : Schema} (hs : s ∈ members) (h : Holds e s)
      (flattened : List (Member Schema)) : Holds e (.allOf members flattened)

theorem memberHasError_of_mem {counts : Severity → Bool} {properties : List (Member Schema)}
    {m : Member Schema} (hm : m ∈ properties) (h : m.schema.hasError counts = true) :
    memberHasError counts properties = true := by
  induction hm with
  | head rest => simp [memberHasError, h]
  | tail first _ ih => simp [memberHasError, ih]

theorem anyHasError_of_mem {counts : Severity → Bool} {members : List Schema} {s : Schema}
    (hs : s ∈ members) (h : s.hasError counts = true) : anyHasError counts members = true := by
  induction hs with
  | head rest => simp [anyHasError, h]
  | tail first _ ih => simp [anyHasError, ih]

/-- An error of a severity that counts is found. -/
theorem Holds.hasError {counts : Severity → Bool} {e : SchemaError} (he : counts e.2 = true)
    {s : Schema} (h : Holds e s) : s.hasError counts = true := by
  induction h with
  | root => exact he
  | property hm _ _ _ _ ih => exact memberHasError_of_mem hm ih
  | items _ _ ih => exact ih
  | member hs _ _ ih => exact anyHasError_of_mem hs ih

mutual

/-- What is found is an error of a severity that counts. -/
theorem exists_holds_of_hasError (counts : Severity → Bool) : ∀ s : Schema,
    s.hasError counts = true → ∃ e, counts e.2 = true ∧ Holds e s
  | .error message severity, h => ⟨(message, severity), h, .root⟩
  | .object properties description sample modifiers, h => by
      obtain ⟨e, he, m, hm, hholds⟩ := exists_holds_of_memberHasError counts properties h
      exact ⟨e, he, .property hm hholds description sample modifiers⟩
  | .array items description, h => by
      obtain ⟨e, he, hholds⟩ := exists_holds_of_hasError counts items h
      exact ⟨e, he, .items hholds description⟩
  | .allOf members flattened, h => by
      obtain ⟨e, he, s, hs, hholds⟩ := exists_holds_of_anyHasError counts members h
      exact ⟨e, he, .member hs hholds flattened⟩
  | .scalar _, h => by cases h
  | .ref _, h => by cases h
  | .any _, h => by cases h

theorem exists_holds_of_memberHasError (counts : Severity → Bool) :
    ∀ properties : List (Member Schema), memberHasError counts properties = true →
      ∃ e, counts e.2 = true ∧ ∃ m ∈ properties, Holds e m.schema
  | ⟨name, schema, metadata, tag⟩ :: rest, h => by
      rw [memberHasError, Bool.or_eq_true] at h
      rcases h with h | h
      · obtain ⟨e, he, hholds⟩ := exists_holds_of_hasError counts schema h
        exact ⟨e, he, _, List.mem_cons_self, hholds⟩
      · obtain ⟨e, he, m, hm, hholds⟩ := exists_holds_of_memberHasError counts rest h
        exact ⟨e, he, m, List.mem_cons_of_mem _ hm, hholds⟩

theorem exists_holds_of_anyHasError (counts : Severity → Bool) :
    ∀ members : List Schema, anyHasError counts members = true →
      ∃ e, counts e.2 = true ∧ ∃ s ∈ members, Holds e s
  | schema :: rest, h => by
      rw [anyHasError, Bool.or_eq_true] at h
      rcases h with h | h
      · obtain ⟨e, he, hholds⟩ := exists_holds_of_hasError counts schema h
        exact ⟨e, he, _, List.mem_cons_self, hholds⟩
      · obtain ⟨e, he, s, hs, hholds⟩ := exists_holds_of_anyHasError counts rest h
        exact ⟨e, he, s, List.mem_cons_of_mem _ hs, hholds⟩

end

/-- No hard error stands where `hasError` looks. -/
def Sound (s : Schema) : Prop := ∀ message, ¬ s.Holds (message, .hard)

theorem containsHardError_eq_false_iff {s : Schema} : s.containsHardError = false ↔ s.Sound := by
  constructor
  · intro h message hholds
    have hfound : s.containsHardError = true := hholds.hasError rfl
    rw [h] at hfound
    cases hfound
  · intro h
    rw [Bool.eq_false_iff]
    intro hfound
    obtain ⟨⟨message, severity⟩, hcounts, hholds⟩ := exists_holds_of_hasError _ s hfound
    obtain rfl : severity = .hard := by simpa using hcounts
    exact h message hholds

end Schema

namespace Resolver

open Schema (memberErrors listErrors)
open SchemaWeave.Graph (IsLoose)

variable {r : Resolver} {next : TypeRef → Bool → Schema} {e : SchemaError}

/-- Where an error in the schema of a shape comes from: a name that leads nowhere, a function, a
declared type that is met, or the properties of an embedded one. -/
inductive Source (r : Resolver) (next : TypeRef → Bool → Schema) (e : SchemaError) : Prop where
  | unknown (shown : String) (h : e = (s!"can't find type '{shown}'", .hard))
  | function (shown : String) (h : e = (s!"'{shown}' is a function and has no schema", .soft))
  | named (t : TypeRef) (ht : r.graph.Declares t) (h : e ∈ (next t false).errors)
  | embedded (t : TypeRef) (ht : r.graph.Declares t ∨ IsLoose t)
      (h : e ∈ memberErrors ((next t true).properties?.getD []))

private theorem source_of_name {doc shown : String} {found : Option TypeRef}
    (hfound : ∀ t ∈ found, r.graph.Declares t)
    (h : e ∈ (Id.run (resolveName next doc shown found)).errors) : Source r next e := by
  cases found with
  | none => exact .unknown shown (List.mem_singleton.1 h)
  | some t =>
      rw [resolveName, Id.run_bind, Id.run_pure, Schema.errors_describe] at h
      exact .named t (hfound t rfl) h

theorem source_of_expr (type : TypeExpr) : ∀ t,
    e ∈ (Id.run (exprSchema r next t type)).errors → Source r next e := by
  induction type with
  | scalar kind =>
      intro t h
      rw [exprSchema, Id.run_pure, Schema.errors_describe] at h
      cases h
  | named name =>
      intro t h
      exact source_of_name (fun _ => Graph.declares_resolveInFile) h
  | qualified package name =>
      intro t h
      exact source_of_name (fun _ => Graph.declares_resolveInFile) h
  | array element ih =>
      intro t h
      rw [exprSchema, Id.run_bind, Id.run_pure, Schema.errors_describe] at h
      exact ih (.anonymous t.file element) h
  | pointer target ih => intro t h; exact ih t h
  | interface =>
      intro t h
      rw [exprSchema, Id.run_pure, Schema.errors_describe] at h
      cases h
  | func =>
      intro t h
      exact .function _ (List.mem_singleton.1 h)

/-- The errors in the parts of a struct. -/
def Parts.errors (parts : Parts) : List SchemaError :=
  memberErrors parts.properties ++ listErrors parts.members ++ memberErrors parts.flattened

theorem Parts.mem_errors_of_toSchema {parts : Parts} {doc : String}
    (h : e ∈ (parts.toSchema doc).errors) : e ∈ parts.errors := by
  simp only [Parts.toSchema] at h
  split at h
  · rw [Schema.errors_describe, Schema.errors] at h
    simp [Parts.errors, h]
  · simp only [Schema.errors, Schema.listErrors_append, Schema.memberErrors_append, listErrors,
      Schema.errors_describe, List.append_nil, List.mem_append] at h
    simp only [Parts.errors, List.mem_append]
    rcases h with (h | h) | h | h <;> simp [h]

private theorem source_of_projection {file : String} {f : Field} {s : Schema}
    (h : e ∈ memberErrors (Id.run (projection r next (f.ref file) s))) :
    Source r next e ∨ e ∈ s.errors := by
  cases s with
  | ref target =>
      simp only [projection] at h
      cases hd : r.definition? (f.ref file) with
      | none => rw [hd] at h; cases h
      | some d =>
          rw [hd] at h
          exact .inl (.embedded d (definition?_ref_declared hd) h)
  | object | array | scalar | allOf | any | error => exact .inr (Schema.mem_errors_of_properties h)

private theorem source_of_placed {file : String} {f : Field} {parts : Parts} {s : Schema}
    (h : e ∈ (Id.run (placeField r next parts f (f.ref file) s)).errors) :
    Source r next e ∨ e ∈ s.errors ∨ e ∈ parts.errors := by
  unfold placeField at h
  split at h
  · cases s with
    | object properties =>
        simp only [Id.run_pure, Parts.errors, Schema.memberErrors_append, List.mem_append] at h
        simp only [Schema.errors, Parts.errors, List.mem_append]
        rcases h with ((h | h) | h) | h <;> simp [h]
    | ref | array | scalar | allOf | any | error =>
        simp only [Id.run_bind, Id.run_pure, Parts.errors, Schema.memberErrors_append,
          Schema.listErrors_append, listErrors, List.append_nil, List.mem_append] at h
        simp only [Parts.errors, List.mem_append]
        rcases h with (h | h | h) | h | h
        · simp [h]
        · simp [h]
        · simp [h]
        · simp [h]
        · exact (source_of_projection h).imp id .inl
  · split at h
    · simp only [Id.run_pure, Parts.errors, Schema.memberErrors_append, memberErrors,
        List.append_nil, List.mem_append] at h
      simp only [Parts.errors, List.mem_append]
      rcases h with ((h | h) | h) | h <;> simp [h]
    · exact .inr (.inr h)

private theorem source_of_field {file : String} {f : Field} {parts : Parts}
    (h : e ∈ (Id.run (addField r next file parts f)).errors) :
    Source r next e ∨ e ∈ parts.errors := by
  rw [addField, Id.run_bind] at h
  rcases source_of_placed h with h | h | h
  · exact .inl h
  · exact .inl (source_of_expr f.type (f.ref file) h)
  · exact .inr h

private theorem source_of_fields {file : String} (fields : List Field) : ∀ {parts : Parts},
    e ∈ (Id.run (fields.foldlM (addField r next file) parts)).errors →
      Source r next e ∨ e ∈ parts.errors := by
  induction fields with
  | nil => intro parts h; exact .inr h
  | cons f rest ih =>
      intro parts h
      rw [List.foldlM_cons, Id.run_bind] at h
      exact (ih h).elim .inl source_of_field

/-- Every error in the schema of a shape has a source. -/
theorem source_of_shape {t : TypeRef} (h : e ∈ (Id.run (shapeSchema r next t)).errors) :
    Source r next e := by
  simp only [shapeSchema] at h
  cases hshape : t.shape with
  | expr type => rw [hshape] at h; exact source_of_expr type t h
  | struct fields =>
      rw [hshape] at h
      simp only [Id.run_bind, Id.run_pure] at h
      refine (source_of_fields fields (Parts.mem_errors_of_toSchema h)).resolve_right ?_
      simp [Parts.errors, memberErrors, listErrors]

end Resolver

end SchemaWeave
