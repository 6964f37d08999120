import SchemaWeave.Schema.Resolve

/-!
The shape of a type is resolved by one program in any monad, with the types met on the way as
parameters. Whatever relates the actions of two monads and is kept by sequencing relates two runs
of that program, once it relates how the types met are resolved: for two resolvers that look at one
type in parallel (`Simulation.shapeSchema_parallel`), and so for one (`Simulation.shapeSchema`).

Not every type is met: a name leads to a declaration, and what is looked through for its properties
is declared or loose (`Graph.IsLoose`).
-/

namespace SchemaWeave

namespace Graph

/-- A type that the graph declares. -/
def Declares (g : Graph) (t : TypeRef) : Prop := ∃ d ∈ g.types, t = d.ref

/-- A type without a key that stands for itself. -/
def IsLoose (t : TypeRef) : Prop :=
  t.key = none ∧
    ((∃ e, t.shape = .expr (.array e)) ∨ (∃ kind, t.shape = .expr (.scalar kind)) ∨
      t.shape = .expr .interface ∨ t.shape = .expr .func)

theorem declares_lookup {g : Graph} {package name : String} {t : TypeRef}
    (h : g.lookup package name = some t) : g.Declares t := by
  obtain ⟨d, hd, rfl⟩ := Option.map_eq_some_iff.mp h
  exact ⟨d, List.mem_of_find?_eq_some hd, rfl⟩

theorem declares_resolveInFile {g : Graph} {file name : String} {qualifier : Option String}
    {t : TypeRef} (h : g.resolveInFile file qualifier name = some t) : g.Declares t := by
  cases qualifier with
  | none =>
      obtain ⟨package, -, hl⟩ := Option.bind_eq_some_iff.mp h
      exact declares_lookup hl
  | some q =>
      obtain ⟨package, -, hl⟩ := Option.bind_eq_some_iff.mp h
      exact declares_lookup hl

end Graph

open SchemaWeave.Graph (IsLoose)

/-- What the name of a type without a key leads to is declared or loose. -/
theorem Resolver.definitionWithin_declared (g : Graph) (n : Nat) : ∀ {t d : TypeRef},
    (g.Declares t ∨ t.key = none ∧ ∃ e, t.shape = .expr e) →
    definitionWithin g n t = some d → g.Declares d ∨ IsLoose d := by
  induction n with
  | zero => intro t d _ h; cases h
  | succ n ih =>
      intro t d ht h
      rw [definitionWithin] at h
      split at h
      · exact ih (.inr ⟨rfl, _, rfl⟩) h
      · obtain ⟨u, hu, h⟩ := Option.bind_eq_some_iff.mp h
        exact ih (.inl (Graph.declares_resolveInFile hu)) h
      · obtain ⟨u, hu, h⟩ := Option.bind_eq_some_iff.mp h
        exact ih (.inl (Graph.declares_resolveInFile hu)) h
      · -- the forms that are left stand for themselves
        rename_i hpointer hnamed hqualified
        obtain rfl : t = d := by simpa using h
        refine ht.imp id fun ⟨hkey, e, he⟩ => ⟨hkey, ?_⟩
        cases e with
        | array element => exact .inl ⟨element, he⟩
        | scalar kind => exact .inr (.inl ⟨kind, he⟩)
        | interface => exact .inr (.inr (.inl he))
        | func => exact .inr (.inr (.inr he))
        | pointer target => exact absurd he (hpointer target)
        | named name => exact absurd he (hnamed name)
        | qualified package name => exact absurd he (hqualified package name)

/-- A field's type denotes a declared or a loose type. -/
theorem Resolver.definition?_ref_declared {r : Resolver} {file : String} {f : Field} {d : TypeRef}
    (h : r.definition? (f.ref file) = some d) : r.graph.Declares d ∨ IsLoose d :=
  definitionWithin_declared r.graph maxHops (.inr ⟨rfl, _, rfl⟩) h

/-- A relation between the actions of two monads that sequencing keeps. -/
structure Simulation (m m' : Type → Type) [Monad m] [Monad m'] where
  rel : {α : Type} → m α → m' α → Prop
  rel_pure : ∀ {α : Type} (x : α), rel (pure x) (pure x)
  rel_bind : ∀ {α β : Type} {a : m α} {a' : m' α} {b : α → m β} {b' : α → m' β},
    rel a a' → (∀ x, rel (b x) (b' x)) → rel (a >>= b) (a' >>= b')

namespace Simulation

open Resolver (Next Parts resolveName addField)

variable {m m' : Type → Type} [Monad m] [Monad m']

/-- The properties of a type, which is all that an embedding looks at. -/
def propertiesOf (next : Next m) (t : TypeRef) : m (List (Member Schema)) := do
  return (← next t true).properties?.getD []

/-- Two resolvers that look at one type find the same to name, to list and to follow, and resolve
what they find to related actions. -/
structure Parallel (S : Simulation m m') (r r' : Resolver) (next : Next m) (next' : Next m')
    (t : TypeRef) : Prop where
  options : r.options = r'.options
  constants : r.graph.constants t = r'.graph.constants t
  named : ∀ file qualifier name,
    Option.Rel (fun u u' => S.rel (next u false) (next' u' false))
      (r.graph.resolveInFile file qualifier name) (r'.graph.resolveInFile file qualifier name)
  embedded : ∀ f ∈ t.fields, Resolver.isSpliced f = true →
    Option.Rel (fun d d' => S.rel (propertiesOf next d) (propertiesOf next' d'))
      (r.definition? (f.ref t.file)) (r'.definition? (f.ref t.file))

section Parallel

variable {S : Simulation m m'} {r r' : Resolver} {next : Next m} {next' : Next m'}

private theorem resolveName (doc shown : String) {found found' : Option TypeRef}
    (h : Option.Rel (fun u u' => S.rel (next u false) (next' u' false)) found found') :
    S.rel (resolveName next doc shown found) (resolveName next' doc shown found') := by
  cases h with
  | none => exact S.rel_pure _
  | some h => exact S.rel_bind h fun _ => S.rel_pure _

private theorem scalarSchema {t : TypeRef} (h : r.graph.constants t = r'.graph.constants t)
    (kind : ScalarKind) : r.scalarSchema t kind = r'.scalarSchema t kind := by
  simp only [Resolver.scalarSchema, h]

/-- A type expression meets the types that its names lead to, and lists the constants of the type it
stands for. -/
theorem exprSchema_parallel
    (h : ∀ file qualifier name, Option.Rel (fun u u' => S.rel (next u false) (next' u' false))
      (r.graph.resolveInFile file qualifier name) (r'.graph.resolveInFile file qualifier name))
    (e : TypeExpr) : ∀ t, r.graph.constants t = r'.graph.constants t →
      S.rel (r.exprSchema next t e) (r'.exprSchema next' t e) := by
  induction e with
  | scalar kind =>
      intro t ht
      simp only [Resolver.exprSchema, scalarSchema ht kind]
      exact S.rel_pure _
  | named name => intro t _; exact resolveName _ _ (h ..)
  | qualified package name => intro t _; exact resolveName _ _ (h ..)
  | array element ih =>
      intro t _
      exact S.rel_bind (ih (.anonymous t.file element) rfl) fun _ => S.rel_pure _
  | pointer target ih => intro t ht; exact ih t ht
  | interface => intro t _; exact S.rel_pure _
  | func => intro t _; exact S.rel_pure _

variable {t : TypeRef} (h : S.Parallel r r' next next' t)
include h

private theorem projection {f : Field} (hf : f ∈ t.fields) (hspliced : Resolver.isSpliced f = true)
    (s : Schema) :
    S.rel (r.projection next (f.ref t.file) s) (r'.projection next' (f.ref t.file) s) := by
  cases s with
  | ref target =>
      simp only [Resolver.projection]
      have hdefinition := h.embedded f hf hspliced
      generalize r.definition? (f.ref t.file) = found at hdefinition ⊢
      generalize r'.definition? (f.ref t.file) = found' at hdefinition ⊢
      cases hdefinition with
      | none => exact S.rel_pure _
      | some hproperties => exact hproperties
  | object | array | scalar | allOf | any | error => exact S.rel_pure _

private theorem placeField {f : Field} (hf : f ∈ t.fields) (parts : Parts) (s : Schema) :
    S.rel (r.placeField next parts f (f.ref t.file) s)
      (r'.placeField next' parts f (f.ref t.file) s) := by
  unfold Resolver.placeField
  simp only [Resolver.propertyName, h.options]
  split
  · rename_i hspliced
    cases s with
    | object => exact S.rel_pure _
    | ref | array | scalar | allOf | any | error =>
        exact S.rel_bind (projection h hf hspliced _) fun _ => S.rel_pure _
  · split
    · exact S.rel_pure _
    · exact S.rel_pure _

private theorem addFields (fields : List Field) (hfields : ∀ f ∈ fields, f ∈ t.fields) : ∀ parts,
    S.rel (fields.foldlM (addField r next t.file) parts)
      (fields.foldlM (addField r' next' t.file) parts) := by
  induction fields with
  | nil => intro parts; exact S.rel_pure parts
  | cons f rest ih =>
      intro parts
      simp only [List.foldlM_cons]
      refine S.rel_bind ?_ (ih fun g hg => hfields g (List.mem_cons_of_mem _ hg))
      refine S.rel_bind (exprSchema_parallel h.named f.type (f.ref t.file) rfl) fun s => ?_
      exact placeField h (hfields f List.mem_cons_self) parts s

/-- **One program, two runs**: where two resolvers look at a type in parallel, its shape is resolved
to related actions. -/
theorem shapeSchema_parallel : S.rel (r.shapeSchema next t) (r'.shapeSchema next' t) := by
  simp only [Resolver.shapeSchema]
  cases hshape : t.shape with
  | expr e => exact exprSchema_parallel h.named e t h.constants
  | struct fields =>
      have hfields : t.fields = fields := by simp [TypeRef.fields, hshape]
      refine S.rel_bind ?_ fun _ => S.rel_pure _
      exact addFields h fields (fun f hf => hfields ▸ hf) _

end Parallel

/-- The types that a shape meets are resolved to related actions. -/
structure Meets (S : Simulation m m') (r : Resolver) (next : Next m) (next' : Next m') : Prop where
  named : ∀ t, r.graph.Declares t → S.rel (next t false) (next' t false)
  embedded : ∀ t, r.graph.Declares t ∨ IsLoose t →
    S.rel (propertiesOf next t) (propertiesOf next' t)

variable {S : Simulation m m'} {r : Resolver} {next : Next m} {next' : Next m'}

theorem Meets.of_forall (h : ∀ t inline, S.rel (next t inline) (next' t inline)) :
    S.Meets r next next' :=
  ⟨fun t _ => h t false, fun t _ => S.rel_bind (h t true) fun _ => S.rel_pure _⟩

private theorem rel_found {R : TypeRef → TypeRef → Prop} {found : Option TypeRef}
    (h : ∀ t ∈ found, R t t) : Option.Rel R found found := by
  cases found with
  | none => exact .none
  | some t => exact .some (h t rfl)

private theorem named_parallel (h : ∀ t, r.graph.Declares t → S.rel (next t false) (next' t false))
    (file : String) (qualifier : Option String) (name : String) :
    Option.Rel (fun u u' => S.rel (next u false) (next' u' false))
      (r.graph.resolveInFile file qualifier name) (r.graph.resolveInFile file qualifier name) :=
  rel_found fun t ht => h t (Graph.declares_resolveInFile ht)

/-- A type expression meets the declarations that its names lead to, and no other types. -/
theorem exprSchema (h : ∀ t, r.graph.Declares t → S.rel (next t false) (next' t false))
    (e : TypeExpr) (t : TypeRef) : S.rel (r.exprSchema next t e) (r.exprSchema next' t e) :=
  exprSchema_parallel (named_parallel h) e t rfl

/-- One resolver is parallel to itself where the types met are resolved to related actions. -/
theorem shapeSchema (h : S.Meets r next next') (t : TypeRef) :
    S.rel (r.shapeSchema next t) (r.shapeSchema next' t) :=
  shapeSchema_parallel
    { options := rfl
      constants := rfl
      named := named_parallel h.named
      embedded := fun _ _ _ => rel_found fun d hd =>
        h.embedded d (Resolver.definition?_ref_declared hd) }

end Simulation

end SchemaWeave
