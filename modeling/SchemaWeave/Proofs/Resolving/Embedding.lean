import SchemaWeave.Proofs.Resolving.Chain
import SchemaWeave.Proofs.Schema.Composition

/-!
What embedding leaves of plain objects. The properties of an embedded object go into the struct, so
a composition has one object only, the last of its members, and what it lists ends with the
properties of that one (`Schema.EndsInObject`). A struct makes such a composition itself
(`Resolver.struct_endsInObject`); all others in its schema came with the types that it meets, so the
whole schema is `Schema.Composed` if theirs are (`Resolver.shapeSchema_composed`).
-/

namespace SchemaWeave

variable {members : List Schema} {flattened : List (Member Schema)}

namespace Schema

/-- A plain object. -/
def IsObject (s : Schema) : Prop :=
  ∃ properties description sample modifiers, s = .object properties description sample modifiers

/-- Of two or more members the last one is an object, without a sample and without calls, and the
only one; its properties are the last that are listed. -/
structure EndsInObject (members : List Schema) (flattened : List (Member Schema)) : Prop where
  two_le_length : 2 ≤ members.length
  last : ∃ own description, members.getLast? = some (.object own description none []) ∧
    own <:+ flattened
  others : ∀ s ∈ members.dropLast, ¬ s.IsObject

/-- Every composition that stands in the schema ends in its only object. -/
def Composed (s : Schema) : Prop :=
  ∀ members flattened, (allOf members flattened).Within s → EndsInObject members flattened

theorem describe_object (text : String) (properties : List (Member Schema))
    (description : Option String) (sample : Option Node) (modifiers : List Modifier) :
    ∃ shown, (object properties description sample modifiers).describe text =
      .object properties shown sample modifiers := by
  unfold describe
  split
  · exact ⟨description, rfl⟩
  · exact ⟨some text, rfl⟩

theorem endsInObject_concat {embedded : List Schema} {projected own : List (Member Schema)}
    (description : Option String) (hembedded : embedded ≠ [])
    (hothers : ∀ s ∈ embedded, ¬ s.IsObject) :
    EndsInObject (embedded ++ [.object own description none []]) (projected ++ own) where
  two_le_length := by
    have hpos := List.length_pos_iff.2 hembedded
    rw [List.length_append, List.length_singleton]
    omega
  last := ⟨own, description, List.getLast?_concat, List.suffix_append projected own⟩
  others := by rwa [List.dropLast_concat]

end Schema

namespace Resolver

variable {r : Resolver} {next : TypeRef → Bool → Schema} {t : TypeRef}

/-- A field adds no object as a member. -/
theorem not_isObject_of_mem_members {file : String} {fields : List Field} {s : Schema}
    (h : s ∈ (r.structParts next file fields).members) : ¬ s.IsObject := by
  obtain ⟨f, -, hs⟩ := List.mem_flatMap.1 h
  by_cases hspliced : isSpliced f = true
  · rcases fieldParts_spliced r next file hspliced with hparts | ⟨hother, hparts⟩ <;>
      rw [hparts] at hs
    · cases hs
    · obtain rfl := List.mem_singleton.1 hs
      rintro ⟨properties, description, sample, modifiers, hobject⟩
      exact hother _ _ _ _ hobject
  · rw [fieldParts_plain (Bool.eq_false_iff.2 hspliced)] at hs
    cases hs

theorem struct_endsInObject (hstruct : t.isStruct = true)
    (h : .allOf members flattened = Id.run (shapeSchema r next t)) :
    Schema.EndsInObject members flattened := by
  cases hshape : t.shape with
  | expr e => simp [TypeRef.isStruct, hshape] at hstruct
  | struct fields =>
      rw [shapeSchema_struct hshape] at h
      obtain ⟨hmembers, rfl, rfl⟩ := Parts.toSchema_eq_allOf h.symm
      obtain ⟨description, hobject⟩ := Schema.describe_object t.doc.full
        (r.structParts next t.file fields).properties none none []
      rw [hobject]
      exact Schema.endsInObject_concat description hmembers fun s => not_isObject_of_mem_members

/-- One step of resolution makes no other composition than that of a struct. -/
theorem shapeSchema_composed (hnext : ∀ t inline, (next t inline).Composed) (t : TypeRef) :
    (Id.run (shapeSchema r next t)).Composed := by
  intro members flattened h
  rcases composition_within_shape h with ⟨hstruct, heq⟩ | ⟨u, -, hwithin⟩ |
      ⟨f, -, -, target, d, -, -, m, hm, hwithin⟩
  · exact struct_endsInObject hstruct heq
  · exact hnext u false _ _ hwithin
  · exact hnext d true _ _ (Schema.within_of_property hm hwithin)

theorem enterOnChain_composed {shape : List String → TypeRef → Schema}
    (hshape : ∀ chain t, (shape chain t).Composed) (chain : List String) (t : TypeRef)
    (inline : Bool) : (r.enterOnChain shape chain t inline).Composed := by
  rcases enterOnChain_cases r shape chain t inline with
    ⟨-, target, -, heq⟩ | ⟨-, heq⟩ | ⟨message, heq⟩ <;> rw [heq]
  · intro _ _ h
    cases h
  · exact hshape _ t
  · intro _ _ h
    cases h

theorem chainSchemaWithin_composed (r : Resolver) (fuel : Nat) : ∀ chain t inline,
    (r.chainSchemaWithin fuel chain t inline).Composed := by
  induction fuel with
  | zero =>
      refine enterOnChain_composed fun _ _ _ _ h => ?_
      cases h
  | succ fuel ih => exact enterOnChain_composed fun chain t => shapeSchema_composed (ih chain) t

/-- **Embedding nests no plain object**: a composition that stands anywhere in the schema of a type,
the lists of properties included, has two or more members. The last is an object whose properties
end the list, and no other one is an object. Nothing is asked of the counters before. -/
theorem typeSchema_endsInObject (r : Resolver) (t : TypeRef) (inline : Bool) (v : Visits)
    (h : (Schema.allOf members flattened).Within ((r.typeSchema t inline).run v).1) :
    Schema.EndsInObject members flattened := by
  obtain ⟨chain, hv⟩ := Visits.exists_counts v
  rw [(typeSchema_follows r t inline v chain hv).1] at h
  exact chainSchemaWithin_composed r _ chain t inline _ _ h

/-! A search takes in a list, and a list takes in a page, which is registered, and a text. The items
of a page are lists again. -/

namespace Paged

def field (name : String) (type : TypeExpr) (embedded : Bool) : Field :=
  ⟨name, type, .empty, [], embedded⟩

def declaration (name : String) (shape : Shape) : Declaration :=
  ⟨"zoo." ++ name, name, "zoo", .empty, shape, []⟩

def search : Declaration := declaration "Search"
  (.struct [field "List" (.pointer (.named "List")) true, field "Text" (.scalar .string) false])

def graph : Graph := ⟨"", ["zoo"], [("zoo", ⟨"zoo", []⟩)], [
  declaration "Kind" (.expr (.scalar .string)),
  declaration "Page" (.struct [field "Items" (.array (.named "List")) false,
    field "Size" (.scalar .integer) false]),
  declaration "List" (.struct [field "Page" (.named "Page") true, field "Kind" (.named "Kind") true,
    field "Total" (.scalar .integer) false]),
  search], []⟩

def resolver : Resolver :=
  (Resolver.new graph ⟨3, none, []⟩).register "zoo.Page" "components/schemas/Page"

def listMembers : List Schema :=
  [.ref "#/components/schemas/Page", .scalar (.plain .string),
    .object [⟨"Total", .scalar (.plain .integer), [], []⟩] none none []]

/-- The list that stands in the items of the page that is behind the list of a search. One list is
being resolved already. -/
theorem typeSchema_endsInObject_search :
    let s := ((resolver.typeSchema search.ref false).run [("zoo.List", 1)]).1
    ∃ flattened, (Schema.allOf listMembers flattened).Within s ∧
      flattened.map Member.name = ["Items", "Size", "Total"] ∧
      Schema.EndsInObject listMembers flattened := by
  intro s
  obtain ⟨outer, m, rest, flattened, hs, hitems, hnames⟩ : ∃ outer m rest flattened,
      s = .allOf outer (m :: rest) ∧ m.schema = .array (.allOf listMembers flattened) none ∧
        flattened.map Member.name = ["Items", "Size", "Total"] := ⟨_, _, _, _, rfl, rfl, rfl⟩
  have hwithin : (Schema.allOf listMembers flattened).Within s := by
    rw [hs]
    refine .listed List.mem_cons_self ?_ outer
    rw [hitems]
    exact .items .root none
  exact ⟨flattened, hwithin, hnames, typeSchema_endsInObject resolver search.ref false _ hwithin⟩

end Paged

end Resolver

end SchemaWeave
