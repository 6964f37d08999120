import SchemaWeave.Proofs.Resolving.Parameters

/-!
The properties and the parameters of a struct that takes in nothing but structs are those of the
same fields. Both are read off the sites that the struct unfolds into: its parameters in any case,
its properties where nothing on the way is a reference or is cut off. No type is registered, and the
list of sites is finite, so no type takes in itself (`Graph.TakesFinitely`): a type that is entered
was not on the chain before.
-/

namespace SchemaWeave

open TypeRef (keys)

/-- What stands under `name` in a value. -/
def Value.named? : Value → Option Value
  | .map entries => Bindings.get? "name" entries
  | _ => none

theorem Parameter.named?_toValue (place : Option Node) (p : Parameter) :
    (p.toValue place).named? = some (.string p.name) := rfl

namespace Graph

variable {g : Graph} {t u : TypeRef}

/-- The type takes in others only down to some depth. -/
def TakesFinitely (g : Graph) (t : TypeRef) : Prop := Acc (fun u t => g.Takes t u) t

theorem TakesFinitely.not_cyclic (h : g.TakesFinitely t) : ¬ Relation.TransGen g.Takes t t := by
  induction h with
  | intro t _ ih =>
      intro hcycle
      obtain ⟨u, hu, hback⟩ := Relation.TransGen.head'_iff.1 hcycle
      exact ih u hu (Relation.TransGen.tail' hback hu)

theorem TakesFinitely.of_leads (hu : g.TakesFinitely u) (h : g.Leads t u) : g.TakesFinitely t := by
  induction h using Relation.ReflTransGen.head_induction_on with
  | refl => exact hu
  | @head t v hv _ ih =>
      refine .intro t fun w hw => ?_
      cases hw with
      | named hw => exact Option.some.inj (hv.symm.trans hw) ▸ ih
      | embedded hf =>
          rw [Resolver.fields_of_next? (r := ⟨g, .default, []⟩) hv] at hf
          cases hf

end Graph

namespace Resolver

variable {r : Resolver} {root t u : TypeRef} {file : String} {fields : List Field}
  {us : List TypeRef} {sites : List Site} {chain : List String}

/-- Every field without a tag that is embedded on the way denotes a struct. -/
def EmbedsStructs (r : Resolver) (root : TypeRef) : Prop :=
  ∀ path t, r.EmbedsAlong root path t → ∀ f ∈ t.fields, isSpliced f = true →
    (r.structOf? (f.ref t.file)).isSome = true

/-- The field at a site stands in a struct that is reached, and takes in none itself. -/
theorem Unfolds.exists_reached (h : r.Unfolds file fields us sites) : ∀ {path : List Nat}
    {t : TypeRef}, r.EmbedsAlong root path t → t.file = file → fields ⊆ t.fields → ∀ s ∈ sites,
      ∃ path' u, r.EmbedsAlong root path' u ∧ s.field ∈ u.fields ∧ s.file = u.file ∧
        r.embedded? s.file s.field = none := by
  induction h with
  | nil => intro path t _ _ _ s hs; cases hs
  | own hf _ ih =>
      intro path t ht hfile hfields s hs
      obtain ⟨hmem, hfields⟩ := List.cons_subset.1 hfields
      rcases List.mem_cons.1 hs with rfl | hs
      · exact ⟨path, t, ht, hmem, hfile.symm, hf⟩
      · exact ih ht hfile hfields s hs
  | embedded hf _ _ ihu ih =>
      intro path t ht hfile hfields s hs
      obtain ⟨hmem, hfields⟩ := List.cons_subset.1 hfields
      rcases List.mem_append.1 hs with hs | hs
      · obtain ⟨i, hi⟩ := List.mem_iff_getElem?.1 hmem
        exact ihu (.step ht hi (hfile ▸ hf)) rfl (List.Subset.refl _) s hs
      · exact ih ht hfile hfields s hs

/-- Where all that is taken in are structs, the sites are those of fields that are not embedded. -/
theorem EmbedsStructs.sites_plain (hstructs : r.EmbedsStructs root)
    (h : r.Unfolds root.file root.fields us sites) : ∀ s ∈ sites, isSpliced s.field = false := by
  intro s hs
  obtain ⟨path, t, ht, hf, hfile, hnone⟩ := h.exists_reached .root rfl (List.Subset.refl _) s hs
  by_cases hspliced : isSpliced s.field = true
  · have hstruct := hstructs path t ht s.field hf hspliced
    rw [embedded?, if_pos hspliced, hfile] at hnone
    rw [hnone] at hstruct
    cases hstruct
  · exact Bool.eq_false_iff.2 hspliced

theorem next?_of_isStruct (h : t.isStruct = true) : r.graph.next? t = none := by
  simp [Graph.next?, TypeRef.shape_of_isStruct h]

theorem takesFinitely_of_fields (hstruct : t.isStruct = true)
    (h : ∀ f ∈ t.fields, isSpliced f = true → r.graph.TakesFinitely (f.ref t.file)) :
    r.graph.TakesFinitely t := by
  refine .intro t fun u hu => ?_
  cases hu with
  | named hu =>
      rw [next?_of_isStruct hstruct] at hu
      cases hu
  | embedded hf hspliced => exact h _ hf hspliced

/-- What unfolds into fields that are not embedded is taken in to some depth only. -/
theorem Unfolds.takesFinitely (h : r.Unfolds file fields us sites)
    (hplain : ∀ s ∈ sites, isSpliced s.field = false) :
    ∀ f ∈ fields, isSpliced f = true → r.graph.TakesFinitely (f.ref file) := by
  induction h with
  | nil => intro f hf; cases hf
  | own _ _ ih =>
      obtain ⟨hown, hplain⟩ := List.forall_mem_cons.1 hplain
      intro f hf hspliced
      rcases List.mem_cons.1 hf with rfl | hf
      · rw [hown] at hspliced
        cases hspliced
      · exact ih hplain f hf hspliced
  | embedded hu _ _ ihu ih =>
      obtain ⟨hinner, hplain⟩ := List.forall_mem_append.1 hplain
      intro f hf hspliced
      rcases List.mem_cons.1 hf with rfl | hf
      · have hfinite := takesFinitely_of_fields (embedded?_eq_some_iff.1 hu).2.2 (ihu hinner)
        exact hfinite.of_leads (leads_of_embedded? hu)
      · exact ih hplain f hf hspliced

/-- Every key on the chain is that of a type which takes in the given one. -/
def Above (r : Resolver) (chain : List String) (t : TypeRef) : Prop :=
  ∀ key ∈ chain, ∃ z, r.graph.IsFound z ∧ z.key = some key ∧ r.graph.TakesIn z t

theorem Above.takes (h : r.Above chain t) (hu : r.graph.Takes t u) : r.Above chain u := by
  intro key hkey
  obtain ⟨z, hz, hzkey, htakes⟩ := h key hkey
  exact ⟨z, hz, hzkey, .tail htakes hu⟩

/-- A type that is taken in has room, since it is none of those that take it in. -/
theorem Above.hasRoom (hbound : 1 ≤ r.options.recursionBound) (h : r.Above chain t)
    (ht : r.graph.Takes t u) (hu : r.graph.IsFound u) (hfinite : r.graph.TakesFinitely u) :
    r.HasRoom chain u := by
  intro key hkey
  have hnew : key ∉ chain := by
    intro hmem
    obtain ⟨z, hz, hzkey, htakes⟩ := h key hmem
    obtain rfl := hz.eq_of_key hu hzkey hkey
    exact hfinite.not_cyclic (Relation.TransGen.tail' htakes ht)
  rw [List.count_eq_zero_of_not_mem hnew]
  exact hbound

theorem Above.enter (h : r.Above chain u) (hu : r.graph.IsFound u) :
    r.Above (entered chain u) u := by
  intro key hmem
  rcases List.mem_append.1 hmem with hmem | hmem
  · exact ⟨u, hu, Option.mem_toList.1 hmem, .refl⟩
  · exact h key hmem

/-- A property is that of the field at a site, with the schema that its type has on some chain. -/
structure IsProperty (r : Resolver) (m : Member Schema) (s : Site) : Prop where
  name : r.propertyName s.field = some m.name
  schema : ∃ chain, m.schema = r.chainSchema chain (s.field.ref s.file) false
  metadata : m.metadata = s.field.doc.metadata
  tag : m.tag = s.field.tag

/-- The sites of fields that are not left out. -/
def named (r : Resolver) (sites : List Site) : List Site :=
  sites.filter fun s => (r.propertyName s.field).isSome

/-- The schema is a plain object with the properties of the fields at the sites, in order. -/
def Lists (r : Resolver) (s : Schema) (sites : List Site) : Prop :=
  ∃ properties description, s = .object properties description none [] ∧
    List.Forall₂ r.IsProperty properties (r.named sites)

theorem Lists.describe {s : Schema} (h : r.Lists s sites) (text : String) :
    r.Lists (s.describe text) sites := by
  obtain ⟨properties, description, rfl, hproperties⟩ := h
  unfold Schema.describe
  split
  · exact ⟨properties, description, rfl, hproperties⟩
  · exact ⟨properties, some text, rfl, hproperties⟩

section Unregistered

variable (hregistry : r.registry = []) (hbound : 1 ≤ r.options.recursionBound)
include hregistry hbound

omit hbound in
theorem targetOf?_of_unregistered (t : TypeRef) : r.targetOf? t = none := by
  cases hkey : t.key <;> simp [targetOf?, hkey, target?, hregistry, Dictionary.get?]

/-- What names lead to is listed as it is by itself, but for the description. -/
theorem lists_of_leads (hfinite : r.graph.TakesFinitely u)
    (h : ∀ chain, r.Above chain u → r.Lists (r.shapeOnChain r.chainSchema chain u) sites)
    (hleads : r.graph.Leads t u) :
    ∀ chain, r.Above chain t → r.Lists (r.shapeOnChain r.chainSchema chain t) sites := by
  induction hleads using Relation.ReflTransGen.head_induction_on with
  | refl => exact h
  | @head t v hv hleads ih =>
      intro chain habove
      have htakes : r.graph.Takes t v := .named hv
      have hfound : r.graph.IsFound v := Graph.isFound_next? hv
      have hopens : r.Opens chain v false :=
        ⟨.inr (targetOf?_of_unregistered hregistry v),
          habove.hasRoom hbound htakes hfound (hfinite.of_leads hleads)⟩
      obtain ⟨e, hshape⟩ : ∃ e, t.shape = .expr e := by
        cases hshape : t.shape with
        | expr e => exact ⟨e, rfl⟩
        | struct fields => simp [Graph.next?, hshape] at hv
      have hname := shapeSchema_by_name r (r.chainSchema chain) hshape
      rw [hv] at hname
      -- the type is entered, so nothing but the description is between it and what it leads to
      rw [shapeOnChain, hname, chainSchema_eq, enterOnChain_of_opens hopens]
      exact (ih _ ((habove.takes htakes).enter hfound)).describe _

omit hregistry hbound in
/-- A struct without members to compose is a plain object with its properties. -/
theorem lists_of_parts (hstruct : t.isStruct = true)
    (hmembers : (r.structParts (r.chainSchema chain) t.file t.fields).members = [])
    (hproperties : List.Forall₂ r.IsProperty
      (r.structParts (r.chainSchema chain) t.file t.fields).properties (r.named sites)) :
    r.Lists (r.shapeOnChain r.chainSchema chain t) sites := by
  have hshape := TypeRef.shape_of_isStruct hstruct
  rw [shapeOnChain, shapeSchema_struct hshape, Parts.toSchema, hmembers]
  exact Lists.describe ⟨_, none, rfl, hproperties⟩ _

/-- **Resolving the fields is unfolding them**: what they add up to are the properties of the sites,
where nothing on the way is a reference or is cut off. -/
theorem Unfolds.structParts (h : r.Unfolds file fields us sites)
    (hplain : ∀ s ∈ sites, isSpliced s.field = false) : ∀ chain,
      (∀ f ∈ fields, isSpliced f = true → r.Above chain (f.ref file)) →
      (r.structParts (r.chainSchema chain) file fields).members = [] ∧
        List.Forall₂ r.IsProperty (r.structParts (r.chainSchema chain) file fields).properties
          (r.named sites) := by
  induction h with
  | nil => intro chain _; exact ⟨rfl, .nil⟩
  | @own file f rest us sites _ _ ih =>
      obtain ⟨hown, hplain⟩ := List.forall_mem_cons.1 hplain
      intro chain habove
      obtain ⟨hmembers, hproperties⟩ :=
        ih hplain chain fun f hf => habove f (List.mem_cons_of_mem _ hf)
      rw [structParts_cons, fieldParts_plain hown]
      refine ⟨hmembers, ?_⟩
      cases hname : r.propertyName f with
      | none => simpa [Parts.append, named, hname] using hproperties
      | some name =>
          have hschema : r.fieldSchema (r.chainSchema chain) file f =
              r.chainSchema chain (f.ref file) false := by
            rw [chainSchema_eq]
            rfl
          have hfield : r.IsProperty ⟨name, r.fieldSchema (r.chainSchema chain) file f,
              f.doc.metadata, f.tag⟩ ⟨file, f⟩ := ⟨hname, ⟨chain, hschema⟩, rfl, rfl⟩
          simpa [Parts.append, named, hname] using ⟨hfield, hproperties⟩
  | @embedded file f rest u us others sites more hf hu _ ihu ih =>
      obtain ⟨hinner, hplain⟩ := List.forall_mem_append.1 hplain
      intro chain habove
      obtain ⟨hspliced, -, hstruct⟩ := embedded?_eq_some_iff.1 hf
      obtain ⟨hmembers, hproperties⟩ :=
        ih hplain chain fun f hf => habove f (List.mem_cons_of_mem _ hf)
      have hlists : r.Lists (r.fieldSchema (r.chainSchema chain) file f) sites := by
        refine lists_of_leads hregistry hbound
          (takesFinitely_of_fields hstruct (hu.takesFinitely hinner)) (fun chain habove => ?_)
          (leads_of_embedded? hf) chain (habove f List.mem_cons_self hspliced)
        obtain ⟨hmembers, hproperties⟩ := ihu hinner chain
          fun f hf hspliced => habove.takes (.embedded hf hspliced)
        exact lists_of_parts hstruct hmembers hproperties
      -- a plain object is spliced, whatever its description, and adds no member
      obtain ⟨properties, description, hobject, hlisted⟩ := hlists
      have hparts : r.fieldParts (r.chainSchema chain) file f = ⟨properties, [], []⟩ := by
        rcases fieldParts_spliced r (r.chainSchema chain) file hspliced with hparts | ⟨hne, -⟩
        · rw [hparts, projected, hobject]
          rfl
        · exact absurd hobject (hne _ _ _ _)
      rw [structParts_cons, hparts]
      refine ⟨hmembers, ?_⟩
      rw [named, List.filter_append]
      exact List.rel_append hlisted hproperties

/-- The schema of a struct lists the sites that it unfolds into. -/
theorem lists_chainSchema (hstruct : t.isStruct = true) (hfound : r.graph.IsFound t)
    (h : r.Unfolds t.file t.fields us sites) (hplain : ∀ s ∈ sites, isSpliced s.field = false) :
    r.Lists (r.chainSchema [] t false) sites := by
  have hopens : r.Opens [] t false := by
    refine ⟨.inr (targetOf?_of_unregistered hregistry t), fun key _ => ?_⟩
    rw [List.count_nil]
    exact hbound
  have habove : r.Above (entered [] t) t := Above.enter (fun _ hmem => by cases hmem) hfound
  rw [chainSchema_eq, enterOnChain_of_opens hopens]
  obtain ⟨hmembers, hproperties⟩ := h.structParts hregistry hbound hplain (entered [] t)
    fun f hf hspliced => habove.takes (.embedded hf hspliced)
  exact lists_of_parts hstruct hmembers hproperties

end Unregistered

/-- An entry is the value of the parameter that the field at a site makes. -/
def IsEntry (r : Resolver) (place : Option Node) (e : Value) (s : Site) : Prop :=
  ∃ p, r.parameter? [] s = some p ∧ e = p.toValue place

theorem name_of_parameter? {s : Site} {p : Parameter} (h : r.parameter? chain s = some p) :
    r.paramName s.field = some p.name := by
  obtain ⟨name, hname, rfl⟩ := Option.map_eq_some_iff.1 h
  exact hname

section Untagged

variable (htags : r.options.paramTags = [])
include htags

/-- Without tags of their own, parameters are named as properties are. -/
theorem paramName_eq_propertyName (f : Field) : r.paramName f = r.propertyName f := by
  rw [paramName, htags, List.nil_append, propertyName]

theorem parameters_listed (place : Option Node) (sites : List Site) :
    List.Forall₂ (r.IsEntry place) ((r.parameters [] sites).map (Parameter.toValue place))
      (r.named sites) := by
  induction sites with
  | nil => exact .nil
  | cons s rest ih =>
      cases hparameter : r.parameter? [] s with
      | none =>
          have hname : r.propertyName s.field = none := by
            rw [← paramName_eq_propertyName htags]
            exact Option.map_eq_none_iff.1 hparameter
          simpa [parameters, named, hparameter, hname] using ih
      | some p =>
          have hname : r.propertyName s.field = some p.name := by
            rw [← paramName_eq_propertyName htags]
            exact name_of_parameter? hparameter
          have hentry : r.IsEntry place (p.toValue place) s := ⟨p, hparameter, rfl⟩
          have hlisted := List.Forall₂.cons hentry ih
          simpa [parameters, named, hparameter, hname] using hlisted

/-- What is listed of the same sites goes by the same names. -/
theorem names_eq {place : Option Node} {entries : List Value} {properties : List (Member Schema)}
    {sites : List Site} (hentries : List.Forall₂ (r.IsEntry place) entries sites)
    (hproperties : List.Forall₂ r.IsProperty properties sites) :
    entries.map Value.named? = properties.map fun m => some (.string m.name) := by
  induction hentries generalizing properties with
  | nil =>
      cases hproperties
      rfl
  | @cons e s _ _ he _ ih =>
      obtain ⟨p, hp, rfl⟩ := he
      cases hproperties with
      | @cons m _ _ _ hm hrest =>
          have hname : some p.name = some m.name := by
            rw [← name_of_parameter? hp, paramName_eq_propertyName htags, hm.name]
          rw [List.map_cons, List.map_cons, ih hrest, Parameter.named?_toValue,
            Option.some.inj hname]

end Untagged

/-- **Parameters and properties are those of the same fields.** Where a struct of the graph takes in
nothing but structs, and none of them twice, its schema is a plain object, and its parameters are
listed. Both go through the fields that it unfolds into, less those that are left out, in the same
order and under the same names. -/
theorem params_name_properties (r : Resolver) (hregistry : r.registry = [])
    (hbound : 1 ≤ r.options.recursionBound) (htags : r.options.paramTags = [])
    (hfound : r.graph.IsFound t) (hstruct : t.isStruct = true) (hstructs : r.EmbedsStructs t)
    (honce : r.EmbedsOnce t) {v : Visits} (hv : v.Counts []) :
    ∃ us sites properties description entries,
      r.Unfolds t.file t.fields us sites ∧
      ((r.apply .schema [.type t]).run v).1 =
        .ok (.schema (.object properties description none [])) ∧
      ((r.apply .params [.type t]).run v).1 = .ok (.list entries) ∧
      entries.map Value.named? = properties.map (fun m => some (.string m.name)) ∧
      List.Forall₂ r.IsProperty properties (r.named sites) ∧
      List.Forall₂ (r.IsEntry t.place) entries (r.named sites) := by
  obtain ⟨us, sites, h, hnodup⟩ := honce.exists_unfolds
  obtain ⟨properties, description, hobject, hproperties⟩ :=
    lists_chainSchema hregistry hbound hstruct hfound h (hstructs.sites_plain h)
  have hschema : ((r.typeSchema t false).run v).1 = .object properties description none [] :=
    (typeSchema_follows r t false v [] hv).1.trans hobject
  have hparams := (params_answers hstruct h hnodup [] v hv).1
  have hentries := parameters_listed htags t.place sites
  have hnames := names_eq htags hentries hproperties
  refine ⟨us, sites, properties, description, _, h, ?_, hparams, hnames, hproperties, hentries⟩
  rw [← hschema]
  rfl

/-! A pet takes in a base through a handle, which is the name of a pointer, and the base takes in a
record. What is embedded under a tag is a property. A field that names itself is not left out. -/

namespace Adopting

def record : Declaration :=
  ⟨"zoo.Record", "Record", "zoo", .empty, .struct [
    ⟨"Chip", .scalar .string, ⟨"", "", "", [("name", .string "chip")]⟩, [("json", "-")], false⟩,
    ⟨"Origin", .scalar .string, .empty, [("json", "-")], false⟩], []⟩

def base : Declaration :=
  ⟨"zoo.Base", "Base", "zoo", .empty, .struct [
    ⟨"Id", .scalar .integer, .empty, [("json", "id,omitempty")], false⟩,
    ⟨"Record", .named "Record", .empty, [], true⟩], []⟩

def handle : Declaration :=
  ⟨"zoo.Handle", "Handle", "zoo", .empty, .expr (.pointer (.named "Base")), []⟩

def keeper : Declaration :=
  ⟨"zoo.Keeper", "Keeper", "zoo", .empty, .struct [
    ⟨"Pet", .pointer (.named "Pet"), .empty, [], false⟩], []⟩

def pet : Declaration :=
  ⟨"zoo.Pet", "Pet", "zoo", .empty, .struct [
    ⟨"Name", .scalar .string, .empty, [], false⟩,
    ⟨"Handle", .named "Handle", .empty, [], true⟩,
    ⟨"Keeper", .named "Keeper", .empty, [("json", "owner")], true⟩], []⟩

def graph : Graph :=
  ⟨"", ["zoo"], [("zoo", ⟨"zoo", []⟩)], [record, base, handle, keeper, pet], []⟩

def resolver : Resolver := .new graph ⟨1, some "json", []⟩

def ways : List (List Nat × TypeRef) := [([], pet.ref), ([1], base.ref), ([1, 1], record.ref)]

theorem pet_ways : ([], pet.ref) :: ways.flatMap resolver.waysOn = ways := rfl

theorem pet_embedsStructs : resolver.EmbedsStructs pet.ref := by
  intro path t ht
  have hall : ∀ way ∈ ways, ∀ f ∈ way.2.fields, isSpliced f = true →
      (resolver.structOf? (f.ref way.2.file)).isSome = true := by decide
  exact hall _ (ht.mem_ways pet_ways)

/-- The keeper leads back to the pet, which is cut off there, in the schema of a property. -/
theorem params_name_properties_pet :
    resolver.registry = [] ∧ 1 ≤ resolver.options.recursionBound ∧
      resolver.options.paramTags = [] ∧ resolver.graph.IsFound pet.ref ∧ pet.ref.isStruct = true ∧
      resolver.EmbedsStructs pet.ref ∧ resolver.EmbedsOnce pet.ref ∧ Visits.Counts [] [] ∧
      ∃ us sites properties description entries,
        resolver.Unfolds pet.ref.file pet.ref.fields us sites ∧
        ((resolver.apply .schema [.type pet.ref]).run []).1 =
          .ok (.schema (.object properties description none [])) ∧
        ((resolver.apply .params [.type pet.ref]).run []).1 = .ok (.list entries) ∧
        properties.map Member.name = ["Name", "id", "chip", "owner"] ∧
        entries.map Value.named? = properties.map (fun m => some (.string m.name)) ∧
        List.Forall₂ resolver.IsProperty properties (resolver.named sites) ∧
        List.Forall₂ (resolver.IsEntry pet.ref.place) entries (resolver.named sites) := by
  have hfound : resolver.graph.IsFound pet.ref := by
    intro key hkey
    obtain rfl := Option.some.inj hkey
    rfl
  have honce : resolver.EmbedsOnce pet.ref := embedsOnce_of_ways pet_ways (by decide)
  obtain ⟨us, sites, properties, description, entries, h, hschema, hparams, hnames, hproperties,
      hentries⟩ := params_name_properties resolver rfl (by decide) rfl hfound rfl pet_embedsStructs
    honce Visits.Counts.nil
  have hlisted : properties.map Member.name = ["Name", "id", "chip", "owner"] := by
    obtain rfl := (Schema.object.inj (Value.schema.inj (Except.ok.inj hschema))).1
    rfl
  exact ⟨rfl, by decide, rfl, hfound, rfl, pet_embedsStructs, honce, Visits.Counts.nil, us, sites,
    properties, description, entries, h, hschema, hparams, hlisted, hnames, hproperties, hentries⟩

end Adopting

end Resolver

end SchemaWeave
