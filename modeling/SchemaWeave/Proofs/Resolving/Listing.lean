import SchemaWeave.Proofs.Resolving.Exposure
import SchemaWeave.Types.Load

/-!
What the list of a composition's properties covers. A composition is made at a struct that is
reached on some chain (`Resolver.exists_place`). Its list has the properties of every member that is
not a reference. A reference is looked through on that chain, where types are further in than they
would be by themselves: its list has what the registered type exposes on its own if the definition
is found, and if there is room for all that the type takes in but the struct itself
(`Resolver.typeSchema_lists_members`).
-/

namespace SchemaWeave

open Schema (Within)
open SchemaWeave.Graph (IsLoose)

namespace Resolver

variable {r : Resolver} {root t u : TypeRef} {inline : Bool} {chain : List String} {name : String}
  {members : List Schema} {flattened : List (Member Schema)}

/-- While the root is resolved the shape of a type is, on the chain: the type is the root, or a name
of it stands in a type that is, or it is looked up behind a reference. -/
inductive Reached (r : Resolver) (root : TypeRef) (inline : Bool) :
    List String → TypeRef → Prop where
  | root (h : r.Opens [] root inline) : Reached r root inline (entered [] root) root
  | named {chain : List String} {t u : TypeRef} (ht : Reached r root inline chain t)
      (hu : r.graph.Meets t u) (h : r.Opens chain u false) :
      Reached r root inline (entered chain u) u
  | looked {chain : List String} {t d : TypeRef} {f : Field} {target : String}
      (ht : Reached r root inline chain t) (hf : f ∈ t.fields) (hspliced : isSpliced f = true)
      (href : r.fieldSchema (r.chainSchema chain) t.file f = .ref target)
      (hd : r.definition? (f.ref t.file) = some d) (h : r.Opens chain d true) :
      Reached r root inline (entered chain d) d

/-- While the root is resolved, the schema is made of a struct on the chain. -/
structure IsPlace (r : Resolver) (root : TypeRef) (inline : Bool) (s : Schema)
    (chain : List String) (t : TypeRef) : Prop where
  reached : r.Reached root inline chain t
  isStruct : t.isStruct = true
  eq : s = r.shapeOnChain r.chainSchema chain t

/-- A composition stands in the schema of a type only if the type is entered. -/
theorem within_of_entered
    (h : (Schema.allOf members flattened).Within (r.chainSchema chain t inline)) :
    r.Opens chain t inline ∧ (Schema.allOf members flattened).Within
      (r.shapeOnChain r.chainSchema (entered chain t) t) := by
  rw [chainSchema_eq] at h
  rcases enterOnChain_cases r (r.shapeOnChain r.chainSchema) chain t inline with
    ⟨-, target, -, heq⟩ | ⟨hopens, heq⟩ | ⟨message, heq⟩ <;> rw [heq] at h
  · cases h
  · exact ⟨hopens, h⟩
  · cases h

theorem Opens.roomOf_lt (h : r.Opens chain t inline) (ht : r.graph.Declares t) :
    r.roomOf (entered chain t) < r.roomOf chain := by
  obtain ⟨d, hd, rfl⟩ := ht
  exact roomOf_cons_lt hd (h.room d.key rfl)

/-- A composition in the schema of a shape is made at some place. -/
theorem Reached.exists_place (ht : r.Reached root inline chain t)
    (h : (Schema.allOf members flattened).Within (r.shapeOnChain r.chainSchema chain t)) :
    ∃ chain u, r.IsPlace root inline (.allOf members flattened) chain u := by
  induction hroom : r.roomOf chain using Nat.strongRecOn generalizing chain t with
  | _ room ih =>
      subst hroom
      rcases composition_within_shape h with
        ⟨hstruct, heq⟩ | ⟨u, hu, h⟩ | ⟨f, hf, hspliced, target, d, href, hd, m, hm, h⟩
      · exact ⟨chain, t, ht, hstruct, heq⟩
      · obtain ⟨hopens, h⟩ := within_of_entered h
        exact ih _ (hopens.roomOf_lt (Graph.declares_meets hu)) (.named ht hu hopens) h rfl
      · rcases definition?_ref_declared hd with hdeclared | hloose
        · obtain ⟨hopens, h⟩ := within_of_entered (Schema.within_of_property hm h)
          exact ih _ (hopens.roomOf_lt hdeclared) (.looked ht hf hspliced href hd hopens) h rfl
        · -- a loose type has no properties
          rw [chainSchema, properties?_within_of_loose hloose] at hm
          cases hm

/-- On the chain, an embedded field of a struct is written as a reference to a registered type. -/
structure RefersAt (r : Resolver) (chain : List String) (t : TypeRef) (f : Field) (k : TypeRef)
    (target : String) : Prop where
  field : f ∈ t.fields
  spliced : isSpliced f = true
  written : r.fieldSchema (r.chainSchema chain) t.file f = .ref target
  leads : ∃ n, r.Refers n (f.ref t.file) k
  registered : r.targetOf? k = some target

/-- On the chain, an embedded field of a struct can be looked through: the definition is found, and
there is room for all that the registered type takes in, the struct itself aside. -/
structure IsClear (r : Resolver) (chain : List String) (t : TypeRef) (f : Field) (k : TypeRef) :
    Prop where
  found : (r.definition? (f.ref t.file)).isSome = true
  room : ∀ u, r.graph.TakesIn k u → u ≠ t → r.HasRoom chain u

/-- What a type exposes is exposed at the definition that is found through it, and the type leads
there. -/
theorem Route.at_definition {n : Nat} {k d : TypeRef} (h : r.Route name n k)
    (hleads : r.graph.Leads t k) (hd : r.definition? t = some d) :
    r.graph.Leads k d ∧ ∃ m, r.Route name m d := by
  have hstruct {k : TypeRef} {f : Field} {n : Nat} (hf : f ∈ k.fields) (h : r.Route name n k)
      (hleads : r.graph.Leads t k) : r.graph.Leads k d ∧ ∃ m, r.Route name m d := by
    obtain rfl := eq_of_definitionWithin r.graph maxHops hd hleads
      (TypeRef.isStruct_of_mem_fields hf)
    exact ⟨.refl, n, h⟩
  induction h with
  | own hf hplain hname => exact hstruct hf (.own hf hplain hname) hleads
  | named hu _ _ ih =>
      obtain ⟨hd, hroute⟩ := ih (.tail hleads hu)
      exact ⟨.head hu hd, hroute⟩
  | spliced hf hspliced h _ => exact hstruct hf (.spliced hf hspliced h) hleads
  | looked hf hspliced hk hd' h _ => exact hstruct hf (.looked hf hspliced hk hd' h) hleads

/-- A name that a registered type exposes on its own is exposed by a struct that refers to it. -/
theorem RefersAt.mem_exposed {f : Field} {k : TypeRef} {target : String}
    (h : r.RefersAt chain t f k target) (hclear : r.IsClear chain t f k)
    (hname : name ∈ (r.chainSchema [] k true).exposed) :
    name ∈ (r.shapeOnChain r.chainSchema chain t).exposed := by
  obtain ⟨n, hrefers⟩ := h.leads
  obtain ⟨d, hd⟩ := Option.isSome_iff_exists.1 hclear.found
  obtain ⟨-, l, hroute⟩ := (chainSchema_routed r []).exposed k true name hname
  obtain ⟨hkd, m, hroute⟩ := hroute.at_definition hrefers.leads hd
  have hk : r.graph.IsFound k := hrefers.isFound
  by_cases hback : r.graph.TakesIn k t
  · -- the struct is taken in itself, but a shortest route from it does not come back to it
    obtain ⟨l, -, hshort, hshortest⟩ :=
      exists_shortest (Route.looked h.field h.spliced hrefers hd hroute)
    refine mem_exposed_of_route hk l hback hshort fun u hu hnearer => hclear.room u hu ?_
    rintro rfl
    exact hshortest hnearer
  · -- no type that is taken in is the struct, so there is room for all of them
    refine mem_exposed_shape_iff.2 (.inl ⟨f, h.field, ?_⟩)
    rw [fieldNames, if_pos h.spliced, projected_of_ref h.written hd]
    refine mem_exposed_of_entered hk (fun n _ => mem_exposed_of_route hk n) (.inl rfl)
      hkd.takesIn hroute fun u hu _ => hclear.room u hu ?_
    rintro rfl
    exact hback hu

/-- At a place where a composition is made, every reference among its members is the schema of an
embedded field. -/
theorem IsPlace.exists_refersAt {target : String}
    (h : r.IsPlace root inline (.allOf members flattened) chain t)
    (href : .ref target ∈ members) : ∃ f k, r.RefersAt chain t f k target := by
  rcases members_of_shape h.isStruct h.eq href with ⟨f, hf, hspliced, hwritten⟩ | ⟨-, hne⟩
  · have hshape : Id.run (shapeSchema r (r.chainSchema chain) (f.ref t.file)) = .ref target :=
      hwritten
    obtain ⟨n, k, hk, htarget⟩ := (chainSchema_routed r chain).refers hshape
    exact ⟨f, k, hf, hspliced, hwritten, ⟨n, hk⟩, htarget⟩
  · exact absurd rfl (hne target)

theorem IsPlace.exposed_subset (h : r.IsPlace root inline (.allOf members flattened) chain t)
    {s : Schema} (hs : s ∈ members) : s.exposed ⊆ flattened.map Member.name := by
  rcases members_of_shape h.isStruct h.eq hs with ⟨f, hf, hspliced, rfl⟩ | ⟨hlisted, -⟩
  · intro name hname
    have hexposed : name ∈ (Schema.allOf members flattened).exposed := by
      rw [h.eq]
      refine mem_exposed_shape_iff.2 (.inl ⟨f, hf, ?_⟩)
      rw [fieldNames, if_pos hspliced]
      exact mem_projected_of_exposed hname
    exact hexposed
  · exact hlisted

/-- **What a composition lists**: wherever a composition stands in the schema of a type, its list
has the properties of its members. A reference among them is the schema of an embedded field at the
place where the composition is made; if that field can be looked through there, the list has what
the registered type exposes on its own. -/
theorem typeSchema_lists_members (r : Resolver) (root : TypeRef) (inline : Bool) {v : Visits}
    (hv : v.Counts []) {members : List Schema} {flattened : List (Member Schema)}
    (h : (Schema.allOf members flattened).Within ((r.typeSchema root inline).run v).1) :
    (∀ s ∈ members, s.exposed ⊆ flattened.map Member.name) ∧
      (∃ chain t, r.IsPlace root inline (.allOf members flattened) chain t) ∧
      ∀ chain t, r.IsPlace root inline (.allOf members flattened) chain t →
        (∀ target, .ref target ∈ members → ∃ f k, r.RefersAt chain t f k target) ∧
          ∀ f k target, r.RefersAt chain t f k target → r.IsClear chain t f k →
            ((r.typeSchema k true).run v).1.exposed ⊆ flattened.map Member.name := by
  have hchain (t : TypeRef) (inline : Bool) :
      ((r.typeSchema t inline).run v).1 = r.chainSchema [] t inline :=
    (typeSchema_follows r t inline v [] hv).1
  rw [hchain] at h
  obtain ⟨hopens, hwithin⟩ := within_of_entered h
  obtain ⟨chain, t, hplace⟩ := (Reached.root hopens).exists_place hwithin
  refine ⟨fun s hs => hplace.exposed_subset hs, ⟨chain, t, hplace⟩, fun chain t hplace => ?_⟩
  refine ⟨fun target => hplace.exists_refersAt, fun f k target hrefers hclear name hname => ?_⟩
  rw [hchain] at hname
  have hexposed : name ∈ (Schema.allOf members flattened).exposed := by
    rw [hplace.eq]
    exact hrefers.mem_exposed hclear hname
  exact hexposed

/-! A pet has a keeper, a keeper takes in a visit, and a visit takes in the pet. Visits and pets are
registered, keepers are not. A guest takes in a pet, behind as many pointers as are followed. -/

namespace Visiting

def manifest : Manifest :=
  ⟨"", [⟨"zoo", [], [
    ⟨"Keeper", none, "", none,
      some [⟨none, "*Visit", "", "", true⟩, ⟨some "Name", "string", "", "", false⟩], []⟩,
    ⟨"Pet", none, "", none,
      some [⟨some "Owner", "*Keeper", "", "", false⟩, ⟨some "Age", "int", "", "", false⟩], []⟩,
    ⟨"Visit", none, "", none,
      some [⟨none, "*Pet", "", "", true⟩, ⟨some "Day", "string", "", "", false⟩], []⟩,
    ⟨"Guest", none, "", none,
      some [⟨some "Pet", "***************Pet", "", "", true⟩,
        ⟨some "Name", "string", "", "", false⟩], []⟩], []⟩]⟩

def named (name : String) (type : TypeExpr) : Field := ⟨name, type, .empty, [], false⟩

def embedded (name : String) (type : TypeExpr) : Field := ⟨name, type, .empty, [], true⟩

def declare (name : String) (fields : List Field) : Declaration :=
  ⟨"zoo." ++ name, name, "zoo", .empty, .struct fields, []⟩

def keeper : Declaration :=
  declare "Keeper" [embedded "Visit" (.pointer (.named "Visit")), named "Name" (.scalar .string)]

def pet : Declaration :=
  declare "Pet" [named "Owner" (.pointer (.named "Keeper")), named "Age" (.scalar .integer)]

def visit : Declaration :=
  declare "Visit" [embedded "Pet" (.pointer (.named "Pet")), named "Day" (.scalar .string)]

def guest : Declaration :=
  declare "Guest" [embedded "Pet" (Nat.repeat TypeExpr.pointer 15 (.named "Pet")),
    named "Name" (.scalar .string)]

def graph : Graph :=
  ⟨"", ["zoo"], [("zoo", ⟨"zoo", []⟩)], [keeper, pet, visit, guest], []⟩

theorem load_manifest : manifest.load = .ok graph := rfl

def resolver : Resolver :=
  ((Resolver.new graph ⟨1, none, []⟩).register "zoo.Pet" "components/schemas/Pet").register
    "zoo.Visit" "components/schemas/Visit"

def schema (d : Declaration) : Schema := ((resolver.typeSchema d.ref true).run []).1

def property (name : String) (kind : ScalarKind) : Member Schema :=
  ⟨name, .scalar (.plain kind), [], []⟩

/-- A composition of a reference and an object with a name. -/
def nameAnd (target : String) : List Schema :=
  [.ref target, .object [property "Name" .string] none none []]

theorem takesIn_visit {u : TypeRef} (h : graph.TakesIn visit.ref u) :
    u = visit.ref ∨ u = (embedded "Pet" (.pointer (.named "Pet"))).ref "zoo" ∨ u = pet.ref := by
  induction h with
  | refl => exact .inl rfl
  | tail _ hstep ih =>
      rcases ih with rfl | rfl | rfl
      · cases hstep with
        | named hu => cases hu
        | embedded hf hspliced =>
            rcases List.mem_cons.1 hf with rfl | hf
            · exact .inr (.inl rfl)
            · obtain rfl := List.mem_singleton.1 hf
              cases hspliced
      · cases hstep with
        | named hu => exact .inr (.inr (Option.some.inj hu).symm)
        | embedded hf => cases hf
      · cases hstep with
        | named hu => cases hu
        | embedded hf hspliced =>
            rcases List.mem_cons.1 hf with rfl | hf
            · cases hspliced
            · obtain rfl := List.mem_singleton.1 hf
              cases hspliced

theorem keeper_isClear : resolver.IsClear ["zoo.Keeper"] keeper.ref
    (embedded "Visit" (.pointer (.named "Visit"))) visit.ref where
  found := rfl
  room u hu _ := by
    intro key hkey
    rcases takesIn_visit hu with rfl | rfl | rfl
    · obtain rfl := Option.some.inj hkey
      decide
    · cases hkey
    · obtain rfl := Option.some.inj hkey
      decide

/-- A keeper that is resolved by itself lists all that visits have. -/
theorem typeSchema_lists_visit : Visits.Counts [] [] ∧
    ∃ flattened, (Schema.allOf (nameAnd "#/components/schemas/Visit") flattened).Within
        (schema keeper) ∧
      (schema visit).exposed = ["Owner", "Age", "Day"] ∧
      (schema visit).exposed ⊆ flattened.map Member.name := by
  obtain ⟨flattened, hkeeper⟩ : ∃ flattened,
      schema keeper = .allOf (nameAnd "#/components/schemas/Visit") flattened := ⟨_, rfl⟩
  have hwithin : (Schema.allOf (nameAnd "#/components/schemas/Visit") flattened).Within
      (schema keeper) := by
    rw [hkeeper]
    exact .root
  have hplace : resolver.IsPlace keeper.ref true
      (.allOf (nameAnd "#/components/schemas/Visit") flattened) ["zoo.Keeper"] keeper.ref :=
    ⟨.root ⟨.inl rfl, by simp [HasRoom, resolver, register, new]⟩, rfl, hkeeper.symm⟩
  have hrefers : resolver.RefersAt ["zoo.Keeper"] keeper.ref
      (embedded "Visit" (.pointer (.named "Visit"))) visit.ref "#/components/schemas/Visit" :=
    ⟨List.mem_cons_self, rfl, rfl, ⟨0, .here rfl (by decide)⟩, rfl⟩
  obtain ⟨-, -, hplaces⟩ :=
    typeSchema_lists_members resolver keeper.ref true Visits.Counts.nil hwithin
  exact ⟨Visits.Counts.nil, flattened, hwithin, rfl,
    (hplaces _ _ hplace).2 _ _ _ hrefers keeper_isClear⟩

/-- A composition in the schema refers to the registered type, and does not list a name that this
type exposes on its own. -/
def Omits (s : Schema) (k : Declaration) (name : String) : Prop :=
  ∃ members flattened target, (Schema.allOf members flattened).Within s ∧
    resolver.target? k.key = some target ∧ .ref target ∈ members ∧ name ∈ (schema k).exposed ∧
    name ∉ flattened.map Member.name

/-- The keeper of a pet, who lists only the day of a visit. -/
def owner : Member Schema :=
  ⟨"Owner", .allOf (nameAnd "#/components/schemas/Visit")
    [property "Day" .string, property "Name" .string], [], []⟩

/-- The keeper of a pet does not list the age that visits have, and a guest not that of its pet: the
keeper is resolved inside the pet, which may not be entered again, and behind the guest's pointers
no definition is found. -/
theorem typeSchema_omits_properties : manifest.load = .ok graph ∧
    Omits (schema pet) visit "Age" ∧ Omits (schema guest) pet "Age" := by
  have hpet : schema pet = .object [owner, property "Age" .integer] none none [] := rfl
  have hguest : schema guest =
      .allOf (nameAnd "#/components/schemas/Pet") [property "Name" .string] := rfl
  have hwithin : owner.schema.Within (schema pet) := by
    rw [hpet]
    exact .property List.mem_cons_self .root _ _ _
  refine ⟨load_manifest, ⟨_, _, _, hwithin, rfl, List.mem_cons_self, by decide +kernel, by decide⟩,
    ⟨nameAnd "#/components/schemas/Pet", [property "Name" .string], _, ?_, rfl,
      List.mem_cons_self, by decide +kernel, by decide⟩⟩
  rw [hguest]
  exact .root

end Visiting

end Resolver

end SchemaWeave
