import Mathlib.Data.List.Forall2
import SchemaWeave.Proofs.Schema.Composition

/-!
What the recursion bound changes. With a larger bound a type is cut off later on its chain, so the
schema is the same but for what stands in the place of some cut-offs (`Schema.Deepens`): every type
that the smaller bound enters the larger one enters too. An embedding is the exception, since it
makes a difference to a struct whether what it takes in is an object or an error; so this holds
where no struct takes in another type.
-/

namespace SchemaWeave

/-- All of a property but its schema. -/
def Member.label {α : Type} (m : Member α) : String × Entries × Dictionary :=
  (m.name, m.metadata, m.tag)

/-- The second schema is the first with other schemas in the place of some cut-offs. -/
inductive Schema.Deepens : Schema → Schema → Prop where
  | cut (key : String) (s : Schema) : Deepens (.softError s!"recursive reference on '{key}'") s
  | same (s : Schema) : Deepens s s
  | object {properties properties' : List (Member Schema)}
      (hlabels : properties.map Member.label = properties'.map Member.label)
      (h : List.Forall₂ Deepens (properties.map Member.schema) (properties'.map Member.schema))
      (description : Option String) (sample : Option Node) (modifiers : List Modifier) :
      Deepens (.object properties description sample modifiers)
        (.object properties' description sample modifiers)
  | array {items items' : Schema} (h : Deepens items items') (description : Option String) :
      Deepens (.array items description) (.array items' description)
  | allOf {members members' : List Schema} {flattened flattened' : List (Member Schema)}
      (hmembers : List.Forall₂ Deepens members members')
      (hlabels : flattened.map Member.label = flattened'.map Member.label)
      (h : List.Forall₂ Deepens (flattened.map Member.schema) (flattened'.map Member.schema)) :
      Deepens (.allOf members flattened) (.allOf members' flattened')

/-- A description is attached to both or to neither. -/
theorem Schema.Deepens.describe {s s' : Schema} (h : s.Deepens s') (text : String) :
    (s.describe text).Deepens (s'.describe text) := by
  unfold Schema.describe
  split
  · exact h
  · cases h with
    | cut key s => exact .cut key _
    | same s => exact .same _
    | object hlabels h description sample modifiers => exact .object hlabels h _ _ _
    | array h description => exact .array h _
    | allOf hmembers hlabels h => exact .allOf hmembers hlabels h

/-- The type takes in no other one. -/
def TypeRef.EmbedsNothing (t : TypeRef) : Prop := ∀ f ∈ t.fields, Resolver.isSpliced f = false

namespace Resolver

/-- The resolver with another recursion bound. -/
def withBound (r : Resolver) (bound : Nat) : Resolver :=
  { r with options := { r.options with recursionBound := bound } }

variable {r : Resolver} {n m : Nat}

/-- Declared types are resolved to deeper schemas on the right. -/
def DeepensDeclared (r : Resolver) (next next' : TypeRef → Bool → Schema) : Prop :=
  ∀ t inline, r.graph.Declares t → (next t inline).Deepens (next' t inline)

section Shape

variable {next next' : TypeRef → Bool → Schema} (h : r.DeepensDeclared next next')
include h

private theorem resolveName_deepens (doc shown : String) {found : Option TypeRef}
    (hfound : ∀ t ∈ found, r.graph.Declares t) :
    (Id.run (resolveName next doc shown found)).Deepens
      (Id.run (resolveName next' doc shown found)) := by
  cases found with
  | none => exact .same _
  | some t => exact (h t false (hfound t rfl)).describe doc

theorem exprSchema_deepens (n m : Nat) (e : TypeExpr) : ∀ t : TypeRef,
    (Id.run (exprSchema (r.withBound n) next t e)).Deepens
      (Id.run (exprSchema (r.withBound m) next' t e)) := by
  induction e with
  | pointer target ih => exact ih
  | array element ih =>
      intro t
      exact Schema.Deepens.describe (.array (ih (.anonymous t.file element)) none) t.doc.full
  | named name =>
      intro t
      exact resolveName_deepens h _ _ fun _ => Graph.declares_resolveInFile
  | qualified package name =>
      intro t
      exact resolveName_deepens h _ _ fun _ => Graph.declares_resolveInFile
  | scalar | interface | func => intro t; exact .same _

/-- The properties of a struct that takes in no other type have the same names in the same order,
and deeper schemas. -/
theorem structParts_deepens (n m : Nat) (file : String) {fields : List Field}
    (hfields : ∀ f ∈ fields, isSpliced f = false) :
    let parts := (r.withBound n).structParts next file fields
    let parts' := (r.withBound m).structParts next' file fields
    parts.members = [] ∧ parts'.members = [] ∧
      parts.properties.map Member.label = parts'.properties.map Member.label ∧
      List.Forall₂ Schema.Deepens (parts.properties.map Member.schema)
        (parts'.properties.map Member.schema) := by
  induction fields with
  | nil => exact ⟨rfl, rfl, rfl, .nil⟩
  | cons f rest ih =>
      obtain ⟨hf, hrest⟩ := List.forall_mem_cons.1 hfields
      obtain ⟨hmembers, hmembers', hlabels, hschemas⟩ := ih hrest
      have hfield := exprSchema_deepens h n m f.type (f.ref file)
      have hname : (r.withBound n).propertyName f = (r.withBound m).propertyName f := rfl
      simp only [structParts_cons, fieldParts_plain hf, Parts.append, hname]
      refine ⟨hmembers, hmembers', ?_, ?_⟩
      · rw [List.map_append, List.map_append, hlabels]
        cases (r.withBound m).propertyName f <;> rfl
      · rw [List.map_append, List.map_append]
        refine List.rel_append ?_ hschemas
        cases (r.withBound m).propertyName f with
        | none => exact .nil
        | some name => exact .cons hfield .nil

theorem shapeSchema_deepens (n m : Nat) {t : TypeRef} (ht : t.EmbedsNothing) :
    (Id.run (shapeSchema (r.withBound n) next t)).Deepens
      (Id.run (shapeSchema (r.withBound m) next' t)) := by
  cases hshape : t.shape with
  | expr e =>
      simp only [shapeSchema, hshape]
      exact exprSchema_deepens h n m e t
  | struct fields =>
      have hfields : t.fields = fields := by simp [TypeRef.fields, hshape]
      obtain ⟨hmembers, hmembers', hlabels, hschemas⟩ :=
        structParts_deepens h n m t.file fun f hf => ht f (hfields ▸ hf)
      rw [shapeSchema_struct hshape, shapeSchema_struct hshape, Parts.toSchema, Parts.toSchema,
        hmembers, hmembers']
      exact Schema.Deepens.describe (.object hlabels hschemas none none []) t.doc.full

end Shape

/-- On one chain, with the same fuel, the larger bound enters what the smaller one enters. -/
theorem chainSchemaWithin_deepens (hnm : n ≤ m)
    (hdeclared : ∀ d ∈ r.graph.types, d.ref.EmbedsNothing) (fuel : Nat) :
    ∀ (chain : List String) (t : TypeRef) (inline : Bool), t.EmbedsNothing →
      ((r.withBound n).chainSchemaWithin fuel chain t inline).Deepens
        ((r.withBound m).chainSchemaWithin fuel chain t inline) := by
  have henter {shape shape' : List String → TypeRef → Schema} {t : TypeRef}
      (hshape : ∀ chain, (shape chain t).Deepens (shape' chain t)) (chain : List String)
      (inline : Bool) : ((r.withBound n).enterOnChain shape chain t inline).Deepens
        ((r.withBound m).enterOnChain shape' chain t inline) := by
    have htarget (key : String) : (r.withBound n).target? key = (r.withBound m).target? key := rfl
    have hbound (bound : Nat) : (r.withBound bound).options.recursionBound = bound := rfl
    simp only [enterOnChain, htarget, hbound]
    split
    · exact hshape chain
    · split
      · exact .same _
      · split
        · exact .cut _ _
        · rw [if_neg (by omega)]
          exact hshape _
  induction fuel with
  | zero => intro chain t inline _; exact henter (fun _ => .same _) chain inline
  | succ fuel ih =>
      intro chain t inline ht
      refine henter (fun chain => shapeSchema_deepens ?_ n m ht) chain inline
      rintro u inline ⟨d, hd, rfl⟩
      exact ih chain d.ref inline (hdeclared d hd)

/-- **A larger bound only deepens**: where no struct takes in another type, the schema with the
larger recursion bound is the one with the smaller bound in which other schemas stand in the place
of some cut-offs. -/
theorem typeSchema_deepens (r : Resolver) (hnm : n ≤ m) {t : TypeRef}
    (hplain : ∀ u, r.graph.Declares u ∨ u = t → u.EmbedsNothing) (inline : Bool) {v : Visits}
    (hv : v.Counts []) :
    (((r.withBound n).typeSchema t inline).run v).1.Deepens
      (((r.withBound m).typeSchema t inline).run v).1 := by
  -- either bound has its own fuel, and no more than the larger of the two is ever needed
  have hchain {bound : Nat} (hbound : bound ≤ m) :
      (((r.withBound bound).typeSchema t inline).run v).1 =
        (r.withBound bound).chainSchemaWithin (r.withBound m).longestChain [] t inline := by
    have hless : (r.withBound bound).longestChain ≤ (r.withBound m).longestChain :=
      Nat.add_le_add_right (Nat.mul_le_mul_right _ hbound) 1
    rw [chainSchemaWithin_of_longestChain_le hless]
    exact (typeSchema_follows _ t inline v [] hv).1
  rw [hchain hnm, hchain (Nat.le_refl m)]
  exact chainSchemaWithin_deepens hnm (fun d hd => hplain d.ref (.inl ⟨d, hd, rfl⟩)) _ [] t inline
    (hplain t (.inr rfl))

/-- A pet has an owner, who has pets. With the smaller bound these are cut off, with the larger one
their owner's pets are; a pet is an object in either schema. -/
theorem typeSchema_deepens_owner :
    let pet : Declaration := ⟨"zoo.Pet", "Pet", "zoo", .empty,
      .struct [⟨"Owner", .pointer (.named "Owner"), .empty, [], false⟩], []⟩
    let owner : Declaration := ⟨"zoo.Owner", "Owner", "zoo", .empty,
      .struct [⟨"Pets", .array (.named "Pet"), .empty, [], false⟩], []⟩
    let r : Resolver := ⟨⟨"", ["zoo"], [("zoo", ⟨"zoo", []⟩)], [pet, owner], []⟩, .default, []⟩
    let schema (bound : Nat) := (((r.withBound bound).typeSchema pet.ref false).run []).1
    let petWith (pets : Schema) : Schema := .object [⟨"Owner",
      .object [⟨"Pets", .array pets none, [], []⟩] none none [], [], []⟩] none none []
    let cut : Schema := .softError "recursive reference on 'zoo.Pet'"
    (∀ u, r.graph.Declares u ∨ u = pet.ref → u.EmbedsNothing) ∧ Visits.Counts [] [] ∧
      (schema 1).Deepens (schema 2) ∧ schema 1 = petWith cut ∧
      schema 2 = petWith (petWith cut) := by
  intro pet owner r schema petWith cut
  have hplain : ∀ u, r.graph.Declares u ∨ u = pet.ref → u.EmbedsNothing := by
    rintro u (⟨d, hd, rfl⟩ | rfl) f hf
    · simp only [r, List.mem_cons, List.not_mem_nil, or_false] at hd
      rcases hd with rfl | rfl <;> rw [List.mem_singleton.1 hf] <;> rfl
    · rw [List.mem_singleton.1 hf]
      rfl
  exact ⟨hplain, Visits.Counts.nil,
    typeSchema_deepens r (by decide) hplain false Visits.Counts.nil, rfl, rfl⟩

end Resolver

end SchemaWeave
