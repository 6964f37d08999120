import Mathlib.Data.List.Forall2
import SchemaWeave.Proofs.Resolving.Fuel
import SchemaWeave.Proofs.Resolving.Naming

/-!
What a registered type is made of shows at its definition and nowhere else. Two graphs that differ
in one registered declaration are resolved in parallel: wherever one comes upon that declaration the
other does too, and both put the same reference there. Only an embedding looks through a reference,
so that none may lead through that declaration.
-/

namespace SchemaWeave

open SchemaWeave.Graph (IsLoose)

/-- Two types are one, or at least both have this key. -/
def TypeRef.SameBut (key : String) (t u : TypeRef) : Prop :=
  t.key = u.key ∧ (t.key ≠ some key → t = u)

/-- Two declarations are one, or declare under this key and in one file different things. -/
structure Declaration.SameBut (key : String) (d e : Declaration) : Prop where
  key_eq : d.key = e.key
  name_eq : d.name = e.name
  file_eq : d.file = e.file
  eq : d.key ≠ key → d = e

/-- Two graphs are one but for the shape, the documentation and the constants of the declaration
with this key. -/
structure Graph.SameBut (key : String) (g h : Graph) : Prop where
  root : g.root = h.root
  packages : g.packages = h.packages
  files : g.files = h.files
  methods : g.methods = h.methods
  types : List.Forall₂ (Declaration.SameBut key) g.types h.types

/-- No field that a type takes in leads through the declaration with this key. -/
def Graph.EmbedsApart (g : Graph) (key : String) (t : TypeRef) : Prop :=
  ∀ f ∈ t.fields, Resolver.isSpliced f = true → ¬ g.LeadsThrough key (f.ref t.file)

theorem find?_rel {α β : Type} {R : α → β → Prop} {p : α → Bool} {q : β → Bool}
    (hpq : ∀ a b, R a b → p a = q b) {as : List α} {bs : List β} (h : List.Forall₂ R as bs) :
    Option.Rel R (as.find? p) (bs.find? q) := by
  induction h with
  | nil => exact .none
  | @cons a b as bs hab _ ih =>
      rw [List.find?_cons, List.find?_cons, hpq a b hab]
      cases q b with
      | true => exact .some hab
      | false => exact ih

variable {g h : Graph} {key : String}

namespace Graph.SameBut

variable (hgraphs : g.SameBut key h)
include hgraphs

theorem type? (k : String) : Option.Rel (Declaration.SameBut key) (g.type? k) (h.type? k) :=
  find?_rel (fun _ _ hd => by rw [hd.key_eq]) hgraphs.types

theorem lookup (package name : String) :
    Option.Rel (TypeRef.SameBut key) (g.lookup package name) (h.lookup package name) := by
  have hfound := hgraphs.type? (TypePath.join package name)
  unfold Graph.lookup
  generalize g.type? (TypePath.join package name) = found at hfound ⊢
  generalize h.type? (TypePath.join package name) = found' at hfound ⊢
  cases hfound with
  | none => exact .none
  | some hd =>
      refine .some ⟨congrArg some hd.key_eq, fun hne => ?_⟩
      rw [hd.eq fun heq => hne (congrArg some heq)]

theorem resolveInFile (file : String) (qualifier : Option String) (name : String) :
    Option.Rel (TypeRef.SameBut key) (g.resolveInFile file qualifier name)
      (h.resolveInFile file qualifier name) := by
  have hlookup (found : Option String) : Option.Rel (TypeRef.SameBut key)
      (found.bind (g.lookup · name)) (found.bind (h.lookup · name)) := by
    cases found with
    | none => exact .none
    | some package => exact hgraphs.lookup package name
  cases qualifier with
  | none =>
      have hpackage : g.packageOf? file = h.packageOf? file := by
        rw [Graph.packageOf?, Graph.packageOf?, hgraphs.files]
      change Option.Rel _ ((g.packageOf? file).bind _) ((h.packageOf? file).bind _)
      rw [← hpackage]
      exact hlookup _
  | some qualifier =>
      have himports : g.imports file = h.imports file := by
        rw [Graph.imports, Graph.imports, hgraphs.files]
      change Option.Rel _ ((Dictionary.get? qualifier (g.imports file)).bind _)
        ((Dictionary.get? qualifier (h.imports file)).bind _)
      rw [← himports]
      exact hlookup _

/-- Only the constants of the one declaration may differ. -/
theorem constants {t : TypeRef} (hkey : t.key ≠ some key) : g.constants t = h.constants t := by
  unfold Graph.constants
  cases hk : t.key with
  | none => rfl
  | some k =>
      have hfound := hgraphs.type? k
      have hkeys : ∀ d ∈ g.type? k, d.key = k := fun d hd => by
        simpa using List.find?_some hd
      simp only [Option.bind_some]
      generalize g.type? k = found at hfound hkeys ⊢
      generalize h.type? k = found' at hfound ⊢
      cases hfound with
      | none => rfl
      | @some d _ hd =>
          have hne : d.key ≠ key := by
            rw [hkeys d rfl]
            rintro rfl
            exact hkey hk
          rw [hd.eq hne]

/-- Pointers and names lead to the same definition as long as they do not lead through the one
declaration. -/
theorem definitionWithin (n : Nat) : ∀ {t : TypeRef}, ¬ g.LeadsThrough key t →
    Resolver.definitionWithin g n t = Resolver.definitionWithin h n t := by
  have hnamed {t : TypeRef} {k : Nat} {qualifier : Option String} {name : String}
      (ih : ∀ {t : TypeRef}, ¬ g.LeadsThrough key t →
        Resolver.definitionWithin g k t = Resolver.definitionWithin h k t)
      (hnext : g.next? t = g.resolveInFile t.file qualifier name)
      (ht : ¬ g.LeadsThrough key t) :
      (g.resolveInFile t.file qualifier name).bind (Resolver.definitionWithin g k) =
        (h.resolveInFile t.file qualifier name).bind (Resolver.definitionWithin h k) := by
    have hfound := hgraphs.resolveInFile t.file qualifier name
    generalize g.resolveInFile t.file qualifier name = found at hnext hfound ⊢
    generalize h.resolveInFile t.file qualifier name = found' at hfound ⊢
    cases hfound with
    | none => rfl
    | @some u _ hu =>
        have hapart : ¬ g.LeadsThrough key u := fun hkey => ht (hkey.of_next? hnext)
        rw [← hu.2 fun hkey => hapart ⟨u, .refl, hkey⟩]
        exact ih hapart
  induction n with
  | zero => intro t _; rfl
  | succ n ih =>
      intro t ht
      cases hshape : t.shape with
      | struct fields => simp only [Resolver.definitionWithin, hshape]
      | expr e =>
          cases e with
          | pointer target =>
              simp only [Resolver.definitionWithin, hshape]
              exact ih fun hkey => ht (hkey.of_pointer hshape)
          | named name =>
              simp only [Resolver.definitionWithin, hshape]
              exact hnamed ih (Graph.next?_named hshape) ht
          | qualified package name =>
              simp only [Resolver.definitionWithin, hshape]
              exact hnamed ih (Graph.next?_qualified hshape) ht
          | array | scalar | interface | func => simp only [Resolver.definitionWithin, hshape]

end Graph.SameBut

namespace Resolver

variable {r : Resolver} {target : String}

theorem embedsApart_of_not_isStruct {t : TypeRef} (h : ¬ t.isStruct = true) :
    g.EmbedsApart key t := by
  have hfields : t.fields = [] := by
    cases hshape : t.shape <;> simp [TypeRef.isStruct, TypeRef.fields, hshape] at h ⊢
  intro f hf
  rw [hfields] at hf
  cases hf

theorem embedsApart_of_declares (hapart : ∀ d ∈ g.types, g.EmbedsApart key d.ref) {t : TypeRef}
    (ht : g.Declares t ∨ IsLoose t) : g.EmbedsApart key t := by
  rcases ht with ⟨d, hd, rfl⟩ | ⟨-, hloose⟩
  · exact hapart d hd
  · refine embedsApart_of_not_isStruct ?_
    obtain ⟨e, he⟩ | ⟨kind, he⟩ | he | he := hloose <;> simp [TypeRef.isStruct, he]

/-- What an embedded field is looked through for is not the declaration with this key. -/
theorem key_ne_of_definition? {t d : TypeRef} (ht : ¬ r.graph.LeadsThrough key t)
    (h : r.definition? t = some d) : d.key ≠ some key := by
  intro hkey
  rcases leads_of_definitionWithin r.graph maxHops h with hleads | hloose
  · exact ht ⟨d, hleads, hkey⟩
  · rw [hloose.1] at hkey
    cases hkey

theorem chainSchemaWithin_of_target (r : Resolver) {t : TypeRef} (hkey : t.key = some key)
    (htarget : r.target? key = some target) (n : Nat) (chain : List String) :
    r.chainSchemaWithin n chain t false = .ref target := by
  have hregistered : r.targetOf? t = some target := by
    rw [targetOf?, hkey, Option.bind_some, htarget]
  cases n <;> exact enterOnChain_of_target hregistered

/-- Where the one declaration is a reference for both, and all other types are resolved alike, both
graphs are looked at in parallel. -/
theorem parallel_sameBut (hgraphs : r.graph.SameBut key h)
    (hapart : ∀ d ∈ r.graph.types, r.graph.EmbedsApart key d.ref) {t : TypeRef}
    (hkey : t.key ≠ some key) (ht : r.graph.EmbedsApart key t)
    {next next' : TypeRef → Bool → Schema}
    (href : ∀ u u', u.key = some key → u'.key = some key → next u false = next' u' false)
    (hnext : ∀ u inline, u.key ≠ some key → r.graph.EmbedsApart key u →
      next u inline = next' u inline) :
    sameAnswer.Parallel r { r with graph := h } next next' t where
  options := rfl
  constants := hgraphs.constants hkey
  named := by
    intro file qualifier name
    have hdeclared : ∀ u ∈ r.graph.resolveInFile file qualifier name, r.graph.Declares u :=
      fun u hu => Graph.declares_resolveInFile hu
    have hfound := hgraphs.resolveInFile file qualifier name
    generalize r.graph.resolveInFile file qualifier name = found at hfound hdeclared ⊢
    dsimp only
    generalize h.resolveInFile file qualifier name = found' at hfound ⊢
    cases hfound with
    | none => exact .none
    | @some u u' hu =>
        refine .some ?_
        by_cases hukey : u.key = some key
        · exact href u u' hukey (hu.1 ▸ hukey)
        · rw [← hu.2 hukey]
          exact hnext u false hukey (embedsApart_of_declares hapart (.inl (hdeclared u rfl)))
  embedded := by
    intro f hf hspliced
    have hleads := ht f hf hspliced
    have hdefinition : r.definition? (f.ref t.file) =
        { r with graph := h }.definition? (f.ref t.file) :=
      hgraphs.definitionWithin maxHops hleads
    rw [← hdefinition]
    cases hd : r.definition? (f.ref t.file) with
    | none => exact .none
    | some d =>
        have hdeclared := definition?_ref_declared hd
        refine .some (congrArg (fun s : Schema => s.properties?.getD []) ?_)
        exact hnext d true (key_ne_of_definition? hleads hd)
          (embedsApart_of_declares hapart hdeclared)

/-- In both graphs a type other than the one declaration is resolved to one schema. -/
theorem chainSchemaWithin_sameBut (hgraphs : r.graph.SameBut key h)
    (hapart : ∀ d ∈ r.graph.types, r.graph.EmbedsApart key d.ref)
    (htarget : r.target? key = some target) (n : Nat) :
    ∀ (chain : List String) (t : TypeRef) (inline : Bool), t.key ≠ some key →
      r.graph.EmbedsApart key t →
      r.chainSchemaWithin n chain t inline =
        { r with graph := h }.chainSchemaWithin n chain t inline := by
  have henter {shape shape' : List String → TypeRef → Schema} {t : TypeRef}
      (hshape : ∀ chain, shape chain t = shape' chain t) (chain : List String) (inline : Bool) :
      r.enterOnChain shape chain t inline =
        { r with graph := h }.enterOnChain shape' chain t inline := by
    simp only [enterOnChain, hshape, target?]
  induction n with
  | zero => intro chain t inline _ _; exact henter (fun _ => rfl) chain inline
  | succ n ih =>
      intro chain t inline hkey ht
      refine henter (fun chain => ?_) chain inline
      refine sameAnswer.shapeSchema_parallel
        (parallel_sameBut hgraphs hapart hkey ht (fun u u' hu hu' => ?_) (ih chain))
      -- both runs stop at the reference
      rw [chainSchemaWithin_of_target r hu htarget,
        chainSchemaWithin_of_target { r with graph := h } hu' htarget]

/-- **A registered type keeps its body to itself**: in two graphs that are the same but for what one
registered declaration is made of, every other type has the same schema, as long as no struct takes
in a type that leads through that declaration. A struct has to be one that the graphs declare; types
of other shapes are arbitrary. -/
theorem typeSchema_confined (hgraphs : r.graph.SameBut key h)
    (hapart : ∀ d ∈ r.graph.types, r.graph.EmbedsApart key d.ref)
    (htarget : r.target? key = some target) {t : TypeRef} (hkey : t.key ≠ some key)
    (hstruct : t.isStruct = true → r.graph.Declares t) (inline : Bool) {v : Visits}
    (hv : v.Counts []) :
    ((r.typeSchema t inline).run v).1 =
      (({ r with graph := h } : Resolver).typeSchema t inline |>.run v).1 := by
  have hchain (r : Resolver) : ((r.typeSchema t inline).run v).1 =
      r.chainSchemaWithin r.longestChain [] t inline := (typeSchema_follows r t inline v [] hv).1
  have hlongest : r.longestChain = { r with graph := h }.longestChain := by
    rw [longestChain, longestChain, hgraphs.types.length_eq]
  have ht : r.graph.EmbedsApart key t := by
    by_cases hstructure : t.isStruct = true
    · exact embedsApart_of_declares hapart (.inl (hstruct hstructure))
    · exact embedsApart_of_not_isStruct hstructure
  rw [hchain, hchain, ← hlongest]
  exact chainSchemaWithin_sameBut hgraphs hapart htarget _ [] t inline hkey ht

/-! A user takes in a base and has tokens, each of which points to a secret. -/

namespace Vault

def secret (shape : Shape) (constants : List EnumValue) : Declaration :=
  ⟨"app.Secret", "Secret", "app", .empty, shape, constants⟩

def token : Declaration :=
  ⟨"app.Token", "Token", "app", .empty, .expr (.pointer (.named "Secret")), []⟩

def base : Declaration :=
  ⟨"app.Base", "Base", "app", .empty, .struct [⟨"Id", .scalar .integer, .empty, [], false⟩], []⟩

def baseField : Field := ⟨"Base", .pointer (.named "Base"), .empty, [], true⟩

def user : Declaration :=
  ⟨"app.User", "User", "app", .empty,
    .struct [baseField, ⟨"Tokens", .array (.named "Token"), .empty, [], false⟩], []⟩

def graph (secret : Declaration) : Graph :=
  ⟨"", ["app"], [("app", ⟨"app", []⟩)], [secret, token, base, user], []⟩

/-- A secret that is a struct. -/
def pin : Declaration := secret (.struct [⟨"Pin", .scalar .integer, .empty, [], false⟩]) []

/-- A secret that is one of two texts. -/
def word : Declaration :=
  secret (.expr (.scalar .string)) [⟨"Short", .string "s"⟩, ⟨"Long", .string "l"⟩]

def safe : Graph := graph pin

def letter : Graph := graph word

def resolver : Resolver := ⟨safe, .default, [("app.Secret", "#/components/schemas/Secret")]⟩

theorem safe_sameBut_letter : safe.SameBut "app.Secret" letter :=
  ⟨rfl, rfl, rfl, rfl, .cons ⟨rfl, rfl, rfl, fun hne => absurd rfl hne⟩
    (List.forall₂_same.2 fun _ _ => ⟨rfl, rfl, rfl, fun _ => rfl⟩)⟩

theorem baseField_apart : ¬ safe.LeadsThrough "app.Secret" (baseField.ref "app") := by
  intro hleads
  obtain hkey | ⟨u, hu, hleads⟩ := Graph.leadsThrough_iff.1 hleads
  · cases hkey
  · obtain rfl : base.ref = u := Option.some.inj hu
    obtain hkey | ⟨v, hv, -⟩ := Graph.leadsThrough_iff.1 hleads
    · exact absurd hkey (by decide)
    · cases hv

theorem safe_embedsApart : ∀ d ∈ safe.types, safe.EmbedsApart "app.Secret" d.ref := by
  intro d hd f hf hspliced
  simp only [safe, graph, List.mem_cons, List.not_mem_nil, or_false] at hd
  rcases hd with rfl | rfl | rfl | rfl
  · obtain rfl := List.mem_singleton.1 hf
    cases hspliced
  · cases hf
  · obtain rfl := List.mem_singleton.1 hf
    cases hspliced
  · rcases List.mem_cons.1 hf with rfl | hf
    · exact baseField_apart
    · obtain rfl := List.mem_singleton.1 hf
      cases hspliced

/-- The user has one schema, whatever the secret is; the secret has two. -/
theorem typeSchema_confined_user :
    safe.SameBut "app.Secret" letter ∧ (∀ d ∈ safe.types, safe.EmbedsApart "app.Secret" d.ref) ∧
      resolver.target? "app.Secret" = some "#/components/schemas/Secret" ∧
      ((resolver.typeSchema user.ref true).run []).1 =
        (({ resolver with graph := letter } : Resolver).typeSchema user.ref true |>.run []).1 ∧
      ((resolver.typeSchema pin.ref true).run []).1.properties?.isSome = true ∧
      (({ resolver with graph := letter } : Resolver).typeSchema word.ref true
        |>.run []).1.properties?.isSome = false :=
  ⟨safe_sameBut_letter, safe_embedsApart, rfl,
    typeSchema_confined safe_sameBut_letter safe_embedsApart rfl (by decide)
      (fun _ => ⟨user, by simp [resolver, safe, graph], rfl⟩) true Visits.Counts.nil,
    rfl, rfl⟩

end Vault

end Resolver

end SchemaWeave
