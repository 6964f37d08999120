import Mathlib.Logic.Relation
import SchemaWeave.Proofs.Resolving.Simulation

/-!
What pointers and names lead to, however many of them there are (`Graph.Leads`). The search for a
definition follows them too, but looks sixteen times at most; what it finds stands on that way
(`Resolver.leads_of_definitionWithin`).
-/

namespace SchemaWeave

/-- The name that a type expression is, pointers aside, with its qualifier. -/
def TypeExpr.name? : TypeExpr → Option (Option String × String)
  | .pointer target => name? target
  | .named name => some (none, name)
  | .qualified package name => some (some package, name)
  | .array _ => none
  | .scalar _ => none
  | .interface => none
  | .func => none

namespace Graph

variable {g : Graph} {t u d : TypeRef} {key : String}

/-- The declaration that a type is the name of, pointers aside. -/
def next? (g : Graph) (t : TypeRef) : Option TypeRef :=
  match t.shape with
  | .expr e => e.name?.bind fun (qualifier, name) => g.resolveInFile t.file qualifier name
  | .struct _ => none

/-- Pointers and names lead from one type to another. -/
def Leads (g : Graph) : TypeRef → TypeRef → Prop :=
  Relation.ReflTransGen fun t u => g.next? t = some u

/-- Pointers and names lead to the type with a key, or on from there. -/
def LeadsThrough (g : Graph) (key : String) (t : TypeRef) : Prop :=
  ∃ u, g.Leads t u ∧ u.key = some key

theorem leadsThrough_iff :
    g.LeadsThrough key t ↔ t.key = some key ∨ ∃ u, g.next? t = some u ∧ g.LeadsThrough key u := by
  constructor
  · rintro ⟨v, hv, hkey⟩
    rcases Relation.ReflTransGen.cases_head hv with rfl | ⟨u, hu, hrest⟩
    · exact .inl hkey
    · exact .inr ⟨u, hu, v, hrest, hkey⟩
  · rintro (hkey | ⟨u, hu, v, hv, hkey⟩)
    · exact ⟨t, .refl, hkey⟩
    · exact ⟨v, .head hu hv, hkey⟩

theorem LeadsThrough.of_next? (hnext : g.next? t = some u) (h : g.LeadsThrough key u) :
    g.LeadsThrough key t :=
  leadsThrough_iff.2 (.inr ⟨u, hnext, h⟩)

/-- A pointer leads to what its target leads to. -/
theorem next?_pointer {target : TypeExpr} (h : t.shape = .expr (.pointer target)) :
    g.next? t = g.next? (.anonymous t.file target) := by
  simp only [next?, h, TypeRef.anonymous, TypeExpr.name?]

theorem next?_named {name : String} (h : t.shape = .expr (.named name)) :
    g.next? t = g.resolveInFile t.file none name := by
  simp only [next?, h, TypeExpr.name?, Option.bind_some]

theorem next?_qualified {package name : String} (h : t.shape = .expr (.qualified package name)) :
    g.next? t = g.resolveInFile t.file (some package) name := by
  simp only [next?, h, TypeExpr.name?, Option.bind_some]

theorem Leads.of_pointer {target : TypeExpr} (h : t.shape = .expr (.pointer target))
    (hleads : g.Leads (.anonymous t.file target) u) (hu : u.key ≠ none) : g.Leads t u := by
  rcases Relation.ReflTransGen.cases_head hleads with rfl | ⟨v, hv, hrest⟩
  · exact absurd rfl hu
  · exact .head ((next?_pointer h).trans hv) hrest

theorem LeadsThrough.of_pointer {target : TypeExpr} (h : t.shape = .expr (.pointer target))
    (hleads : g.LeadsThrough key (.anonymous t.file target)) : g.LeadsThrough key t := by
  obtain ⟨u, hu, hkey⟩ := hleads
  exact ⟨u, hu.of_pointer h (by simp [hkey]), hkey⟩

theorem Declares.key_ne_none (h : g.Declares t) : t.key ≠ none := by
  obtain ⟨d, -, rfl⟩ := h
  exact Option.some_ne_none _

end Graph

open SchemaWeave.Graph (IsLoose)

/-- The definition of a type stands on the way that its pointers and names lead, or has no key. -/
theorem Resolver.leads_of_definitionWithin (g : Graph) (n : Nat) : ∀ {t d : TypeRef},
    definitionWithin g n t = some d → g.Leads t d ∨ IsLoose d := by
  induction n with
  | zero => intro t d h; cases h
  | succ n ih =>
      intro t d h
      rw [definitionWithin] at h
      split at h
      · rename_i target hshape
        rcases definitionWithin_declared g n (.inr ⟨rfl, target, rfl⟩) h with hd | hd
        · exact (ih h).imp (·.of_pointer hshape hd.key_ne_none) id
        · exact .inr hd
      · rename_i name hshape
        obtain ⟨u, hu, h⟩ := Option.bind_eq_some_iff.1 h
        exact (ih h).imp (.head ((Graph.next?_named hshape).trans hu)) id
      · rename_i package name hshape
        obtain ⟨u, hu, h⟩ := Option.bind_eq_some_iff.1 h
        exact (ih h).imp (.head ((Graph.next?_qualified hshape).trans hu)) id
      · obtain rfl : t = d := by simpa using h
        exact .inl .refl

theorem TypeRef.shape_of_isStruct {t : TypeRef} (h : t.isStruct = true) :
    t.shape = .struct t.fields := by
  cases hshape : t.shape with
  | struct members => simp [fields, hshape]
  | expr e => simp [isStruct, hshape] at h

theorem TypeRef.isStruct_of_mem_fields {t : TypeRef} {f : Field} (h : f ∈ t.fields) :
    t.isStruct = true := by
  unfold fields at h
  split at h
  · next fields hshape => simp [isStruct, hshape]
  · cases h

/-- Where pointers and names lead to a struct, nothing else is the definition. -/
theorem Resolver.eq_of_definitionWithin (g : Graph) (n : Nat) : ∀ {t d u : TypeRef},
    definitionWithin g n t = some d → g.Leads t u → u.isStruct = true → d = u := by
  induction n with
  | zero => intro t d u h; cases h
  | succ n ih =>
      intro t d u h hleads hu
      rcases Relation.ReflTransGen.cases_head hleads with rfl | ⟨v, hv, hleads⟩
      · -- a struct is its own definition
        cases hshape : t.shape with
        | struct fields => simpa [definitionWithin, hshape] using h.symm
        | expr e => simp [TypeRef.isStruct, hshape] at hu
      · rw [definitionWithin] at h
        split at h
        · rename_i target hshape
          exact ih h (.head ((Graph.next?_pointer hshape).symm.trans hv) hleads) hu
        · rename_i name hshape
          rw [Graph.next?_named hshape] at hv
          rw [hv] at h
          exact ih h hleads hu
        · rename_i package name hshape
          rw [Graph.next?_qualified hshape] at hv
          rw [hv] at h
          exact ih h hleads hu
        · -- the other forms are not names
          rename_i hpointer hnamed hqualified
          obtain ⟨e, hshape, hname⟩ : ∃ e, t.shape = .expr e ∧ e.name? ≠ none := by
            cases hshape : t.shape with
            | struct fields => simp [Graph.next?, hshape] at hv
            | expr e =>
                refine ⟨e, rfl, fun hnone => ?_⟩
                simp [Graph.next?, hshape, hnone] at hv
          cases e with
          | pointer target => exact absurd hshape (hpointer target)
          | named name => exact absurd hshape (hnamed name)
          | qualified package name => exact absurd hshape (hqualified package name)
          | array | scalar | interface | func => exact absurd rfl hname

end SchemaWeave
