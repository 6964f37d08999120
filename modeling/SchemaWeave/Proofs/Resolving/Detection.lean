import SchemaWeave.Proofs.Resolving.Listing
import SchemaWeave.Proofs.Schema.Faithful
import SchemaWeave.Proofs.Schema.Flaws

/-!
Which of the errors in a resolved schema `hasError` finds. It looks into the members of a
composition but not into the list of their properties, so an error in a listed property is found if
one of the members has that property. In the schema of a type this fails only for what is looked up
behind a reference (`Resolver.covered_of_shape`): an error there is written into the document
(`Schema.Within.exists_at`), and `hasError` does not see it (`Schema.Hides`).
-/

namespace SchemaWeave

namespace Schema

variable {counts : Severity → Bool} {s : Schema}

/-- Some error of a severity that counts stands in the schema, at any place where one is written:
the root, a property, the items, a member or the list of a composition's properties. -/
def Shows (counts : Severity → Bool) (s : Schema) : Prop :=
  ∃ message severity, counts severity = true ∧ (error message severity).Within s

/-- A composition in the schema lists a property that shows an error and that none of its members
has. One of these is a reference. -/
def Hides (counts : Severity → Bool) (s : Schema) : Prop :=
  ∃ (members : List Schema) (flattened : List (Member Schema)),
    (allOf members flattened).Within s ∧ (∃ target, .ref target ∈ members) ∧
      ∃ m ∈ flattened, (∀ t ∈ members, m ∉ t.properties?.getD []) ∧ m.schema.Shows counts

/-- What every composition in the schema lists is a property of one of its members, or else one of
these is a reference. -/
def Covered (s : Schema) : Prop :=
  ∀ members flattened, (allOf members flattened).Within s → ∀ m ∈ flattened,
    (∃ t ∈ members, m ∈ t.properties?.getD []) ∨ ∃ target, .ref target ∈ members

theorem Within.trans {part whole : Schema} (hpart : part.Within s) (h : s.Within whole) :
    part.Within whole := by
  induction h with
  | root => exact hpart
  | property hm _ description sample modifiers ih => exact .property hm ih _ _ _
  | items _ description ih => exact .items ih _
  | member hs _ flattened ih => exact .member hs ih _
  | listed hm _ members ih => exact .listed hm ih _

theorem Covered.of_within {part : Schema} (h : s.Covered) (hpart : part.Within s) :
    part.Covered :=
  fun members flattened hwithin => h members flattened (hwithin.trans hpart)

theorem Hides.of_within {part : Schema} (h : part.Hides counts) (hpart : part.Within s) :
    s.Hides counts := by
  obtain ⟨members, flattened, hwithin, hrest⟩ := h
  exact ⟨members, flattened, hwithin.trans hpart, hrest⟩

theorem Hides.shows (h : s.Hides counts) : s.Shows counts := by
  obtain ⟨members, flattened, hwithin, -, m, hm, -, message, severity, hcounts, herror⟩ := h
  exact ⟨message, severity, hcounts, Within.trans (.listed hm herror _) hwithin⟩

theorem shows_of_hasError (h : s.hasError counts = true) : s.Shows counts := by
  obtain ⟨e, hcounts, hholds⟩ := exists_holds_of_hasError counts s h
  exact ⟨e.1, e.2, hcounts, hholds.within⟩

/-- An error that is found in a property that a schema exposes is found in the schema, or hidden
there. -/
theorem hasError_of_exposed {m : Member Schema} (hfound : m.schema.hasError counts = true) :
    s.Covered → m ∈ s.properties?.getD [] → s.hasError counts = true ∨ s.Hides counts := by
  induction s using Schema.induction with
  | object properties description sample modifiers _ =>
      intro _ hm
      exact .inl (memberHasError_of_mem hm hfound)
  | allOf members flattened ih _ =>
      intro hcovered hm
      by_cases hmember : ∃ t ∈ members, m ∈ t.properties?.getD []
      · -- the member may list the property for its own members, and so on
        obtain ⟨t, ht, hm⟩ := hmember
        have hwithin : t.Within (allOf members flattened) := .member ht .root _
        rcases ih t ht (hcovered.of_within hwithin) hm with hfound | hhides
        · exact .inl (anyHasError_of_mem ht hfound)
        · exact .inr (hhides.of_within hwithin)
      · have href := (hcovered members flattened .root m hm).resolve_left hmember
        have hnone : ∀ t ∈ members, m ∉ t.properties?.getD [] :=
          fun t ht hm => hmember ⟨t, ht, hm⟩
        exact .inr ⟨members, flattened, .root, href, m, hm, hnone, shows_of_hasError hfound⟩
  | array | scalar | ref | any | error => intro _ hm; cases hm

/-- Where every listed property comes from a member or from behind a reference, an error is found or
hidden. -/
theorem hasError_or_hides {message : String} {severity : Severity}
    (hcounts : counts severity = true) (h : (error message severity).Within s) :
    s.Covered → s.hasError counts = true ∨ s.Hides counts := by
  -- What is found in a part is found in the whole, and what is hidden there is hidden here. Only a
  -- listed property is not searched itself.
  induction h with
  | root => exact fun _ => .inl hcounts
  | property hm _ description sample modifiers ih =>
      intro hcovered
      have hwithin := Within.property hm .root description sample modifiers
      exact (ih (hcovered.of_within hwithin)).imp (memberHasError_of_mem hm)
        (Hides.of_within · hwithin)
  | @items t _ description ih =>
      intro hcovered
      have hwithin : t.Within (array t description) := .items .root description
      exact (ih (hcovered.of_within hwithin)).imp id (Hides.of_within · hwithin)
  | member hs _ flattened ih =>
      intro hcovered
      have hwithin := Within.member hs .root flattened
      exact (ih (hcovered.of_within hwithin)).imp (anyHasError_of_mem hs)
        (Hides.of_within · hwithin)
  | listed hm _ members ih =>
      intro hcovered
      have hwithin := Within.listed hm .root members
      rcases ih (hcovered.of_within hwithin) with hfound | hhides
      · exact hasError_of_exposed hfound hcovered hm
      · exact .inr (hhides.of_within hwithin)

theorem Covered.shows_iff (h : s.Covered) :
    s.Shows counts ↔ s.hasError counts = true ∨ s.Hides counts := by
  constructor
  · rintro ⟨message, severity, hcounts, hwithin⟩
    exact hasError_or_hides hcounts hwithin h
  · exact fun hfound => hfound.elim shows_of_hasError Hides.shows

/-- A property is written under its name if no other one in the list has it. -/
theorem mem_toEntries_of_nodup {properties : List (Member Schema)} {m : Member Schema}
    (hnames : (properties.map Member.name).Nodup) (hm : m ∈ properties) :
    (m.name, memberNode m) ∈ toEntries [] properties := by
  rw [toEntries_of_nodup hnames]
  exact List.mem_map_of_mem hm

/-- **Every place is written**: where names are distinct, the document has that of each schema in
it, at some place. -/
theorem Within.exists_at {part : Schema} (h : part.Within s) : s.HasDistinctNames →
    ∃ path, s.toNode.At path part.toNode := by
  induction h with
  | root => exact fun _ => ⟨[], .here _⟩
  | @property properties m hm _ description sample modifiers ih =>
      intro hnames
      obtain ⟨hnodup, hschemas⟩ := hasDistinctNames_object.1 hnames
      obtain ⟨path, hpath⟩ := ih (hschemas m hm)
      have hstep : (object properties description sample modifiers).toNode.Inside
          (.property m.name) (memberNode m).withoutMetadata :=
        .property (by simp) (mem_toEntries_of_nodup hnodup hm)
      rw [withoutMetadata_memberNode] at hstep
      exact ⟨.property m.name :: path, .inside hstep hpath⟩
  | @items items _ description ih =>
      intro hnames
      obtain ⟨path, hpath⟩ := ih (hasDistinctNames_array.1 hnames)
      exact ⟨.items :: path, .inside (.items (by simp)) hpath⟩
  | @member members t ht _ flattened ih =>
      intro hnames
      obtain ⟨path, hpath⟩ := ih ((hasDistinctNames_allOf.1 hnames).2.1 t ht)
      obtain ⟨index, hindex⟩ := List.mem_iff_getElem?.1 ht
      refine ⟨.member index :: path, .inside (.member List.mem_cons_self ?_) hpath⟩
      rw [toNodes_eq_map, List.getElem?_map, hindex]
      rfl
  | @listed flattened m hm _ members ih =>
      intro hnames
      obtain ⟨hnodup, -, hschemas⟩ := hasDistinctNames_allOf.1 hnames
      obtain ⟨path, hpath⟩ := ih (hschemas m hm)
      have hstep : (allOf members flattened).toNode.Inside
          (.listed m.name) (memberNode m).withoutMetadata :=
        .listed (List.mem_cons_of_mem _ List.mem_cons_self) (mem_toEntries_of_nodup hnodup hm)
      rw [withoutMetadata_memberNode] at hstep
      exact ⟨.listed m.name :: path, .inside hstep hpath⟩

end Schema

namespace Resolver

variable {r : Resolver} {next : TypeRef → Bool → Schema} {t : TypeRef} {members : List Schema}
  {flattened : List (Member Schema)}

/-- What an embedded field lists is a property of the member that it adds, or else this is a
reference. -/
theorem covered_of_field {file : String} {f : Field} {m : Member Schema}
    (h : m ∈ (r.fieldParts next file f).flattened) :
    r.fieldSchema next file f ∈ (r.fieldParts next file f).members ∧
      (m ∈ (r.fieldSchema next file f).properties?.getD [] ∨
        ∃ target, r.fieldSchema next file f = .ref target) := by
  by_cases hspliced : isSpliced f = true
  · rcases fieldParts_spliced r next file hspliced with hparts | ⟨-, hparts⟩ <;>
      rw [hparts] at h ⊢
    · cases h
    · refine ⟨List.mem_singleton.2 rfl, (mem_projected h).imp_right ?_⟩
      exact fun ⟨target, _, href, _⟩ => ⟨target, href⟩
  · rw [fieldParts_plain (Bool.eq_false_iff.2 hspliced)] at h
    cases h

/-- What the composition of a struct lists is a property of one of its members, or else one of these
is a reference. -/
theorem covered_of_shape (hstruct : t.isStruct = true)
    (h : .allOf members flattened = Id.run (shapeSchema r next t)) {m : Member Schema}
    (hm : m ∈ flattened) :
    (∃ u ∈ members, m ∈ u.properties?.getD []) ∨ ∃ target, .ref target ∈ members := by
  obtain ⟨rfl, rfl⟩ := composition_of_struct hstruct h
  rcases List.mem_append.1 hm with hm | hm
  · obtain ⟨f, hf, hm⟩ := List.mem_flatMap.1 hm
    obtain ⟨hmember, hfield⟩ := covered_of_field hm
    have hmem : r.fieldSchema next t.file f ∈ (r.structParts next t.file t.fields).members :=
      List.mem_flatMap.2 ⟨f, hf, hmember⟩
    rcases hfield with hm | ⟨target, href⟩
    · exact .inl ⟨_, List.mem_append_left _ hmem, hm⟩
    · exact .inr ⟨target, List.mem_append_left _ (href ▸ hmem)⟩
  · -- the properties of the struct itself are those of its last member
    refine .inl ⟨_, List.mem_append_right _ (List.mem_singleton.2 rfl), ?_⟩
    rw [properties?_describe]
    exact hm

theorem chainSchema_covered (r : Resolver) (root : TypeRef) (inline : Bool) :
    (r.chainSchema [] root inline).Covered := by
  intro members flattened h m hm
  obtain ⟨hopens, hwithin⟩ := within_of_entered h
  obtain ⟨chain, t, hplace⟩ := (Reached.root hopens).exists_place hwithin
  exact covered_of_shape hplace.isStruct hplace.eq hm

/-- A reference stands among the members of a composition only if some type is registered. -/
theorem exists_target_of_hides {counts : Severity → Bool} {root : TypeRef} {inline : Bool}
    (h : (r.chainSchema [] root inline).Hides counts) :
    ∃ key target, r.target? key = some target := by
  obtain ⟨members, flattened, hwithin, ⟨target, href⟩, -⟩ := h
  obtain ⟨hopens, hwithin⟩ := within_of_entered hwithin
  obtain ⟨chain, t, hplace⟩ := (Reached.root hopens).exists_place hwithin
  obtain ⟨f, k, hrefers⟩ := hplace.exists_refersAt href
  obtain ⟨key, -, htarget⟩ := Option.bind_eq_some_iff.1 hrefers.registered
  exact ⟨key, target, htarget⟩

/-- **Which errors are found**: a schema that a type is resolved to has an error somewhere, a hard
one or any, exactly if it is found or if a composition lists it for a property that was looked up
behind a reference. If no type is registered all errors are found. -/
theorem typeSchema_detects (r : Resolver) (root : TypeRef) (inline : Bool) {v : Visits}
    (hv : v.Counts []) :
    let s := ((r.typeSchema root inline).run v).1
    ((∃ message, (Schema.hardError message).Within s) ↔
        s.containsHardError = true ∨ s.Hides (· == .hard)) ∧
      ((∃ message severity, (Schema.error message severity).Within s) ↔
        s.containsError = true ∨ s.Hides fun _ => true) ∧
      ((∀ key, r.target? key = none) → ∀ counts, ¬ s.Hides counts) := by
  intro s
  -- from counters of zero, the run follows the empty chain
  have hs : s = r.chainSchema [] root inline := (typeSchema_follows r root inline v [] hv).1
  have hcovered : s.Covered := hs ▸ chainSchema_covered r root inline
  have hhard : s.Shows (· == .hard) ↔ ∃ message, (Schema.hardError message).Within s := by
    simp [Schema.Shows, Schema.hardError]
  have hany : s.Shows (fun _ => true) ↔
      ∃ message severity, (Schema.error message severity).Within s := by
    simp [Schema.Shows]
  refine ⟨hhard.symm.trans hcovered.shows_iff, hany.symm.trans hcovered.shows_iff, ?_⟩
  intro hnone counts hhides
  obtain ⟨key, target, htarget⟩ := exists_target_of_hides (hs ▸ hhides)
  rw [hnone key] at htarget
  cases htarget

/-! A base has a field of an unknown type, and a pet takes the base in. -/

namespace Overlooked

def manifest : Manifest :=
  ⟨"", [⟨"zoo", [], [
    ⟨"Base", none, "", none, some [⟨some "Bad", "Missing", "", "", false⟩], []⟩,
    ⟨"Pet", none, "", none,
      some [⟨none, "Base", "", "", true⟩, ⟨some "Id", "string", "", "", false⟩], []⟩], []⟩]⟩

def base : Declaration :=
  ⟨"zoo.Base", "Base", "zoo", .empty,
    .struct [⟨"Bad", .named "Missing", .empty, [], false⟩], []⟩

def pet : Declaration :=
  ⟨"zoo.Pet", "Pet", "zoo", .empty,
    .struct [⟨"Base", .named "Base", .empty, [], true⟩,
      ⟨"Id", .scalar .string, .empty, [], false⟩], []⟩

def graph : Graph := ⟨"", ["zoo"], [("zoo", ⟨"zoo", []⟩)], [base, pet], []⟩

theorem load_manifest : manifest.load = .ok graph := rfl

def plain : Resolver := .new graph .default

def bad : Member Schema := ⟨"Bad", .hardError "can't find type 'Missing'", [], []⟩

def id : Member Schema := ⟨"Id", .scalar (.plain .string), [], []⟩

/-- Without a registered type the error is a property of the pet. -/
theorem typeSchema_detects_bad : Visits.Counts [] [] ∧ (∀ key, plain.target? key = none) ∧
    ((plain.typeSchema pet.ref false).run []).1.containsHardError = true := by
  have hpet : ((plain.typeSchema pet.ref false).run []).1 = .object [bad, id] none none [] := rfl
  have hwithin : bad.schema.Within ((plain.typeSchema pet.ref false).run []).1 :=
    hpet ▸ .property List.mem_cons_self .root _ _ _
  have hnone : ∀ key, plain.target? key = none := fun _ => rfl
  obtain ⟨hhard, -, hfound⟩ := typeSchema_detects plain pet.ref false Visits.Counts.nil
  exact ⟨Visits.Counts.nil, hnone, (hhard.1 ⟨_, hwithin⟩).resolve_right (hfound hnone _)⟩

/-- With the base registered the pet refers to it. The error is in the list of the properties only:
it is written, and it is not found. -/
theorem typeSchema_overlooks_bad : manifest.load = .ok graph ∧
    let s := (((plain.register "zoo.Base" "components/schemas/Base").typeSchema pet.ref false).run
      []).1
    bad.schema.Within s ∧ (∃ path, s.toNode.At path bad.schema.toNode) ∧
      s.containsHardError = false ∧ s.containsError = false := by
  refine ⟨load_manifest, ?_⟩
  intro s
  have hpet : s = .allOf [.ref "#/components/schemas/Base", .object [id] none none []] [bad, id] :=
    rfl
  have hwithin : bad.schema.Within s := hpet ▸ .listed List.mem_cons_self .root _
  have hnames : s.HasDistinctNames := by simp [hpet, bad, id, Schema.hardError]
  exact ⟨hwithin, hwithin.exists_at hnames, rfl, rfl⟩

end Overlooked

end Resolver

end SchemaWeave
