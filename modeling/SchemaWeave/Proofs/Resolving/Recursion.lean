import SchemaWeave.Proofs.Resolving.Chain
import SchemaWeave.Proofs.Schema.Errors

/-!
Where resolution is cut off. A registered type is entered only where its inline form is asked for:
by the caller, when nothing is being resolved yet, or by an embedding, which looks at nothing but
the properties, and an error has none. So the errors that a cut leaves behind name declared types
that are not registered.
-/

namespace SchemaWeave.Resolver

open Schema (memberErrors)
open SchemaWeave.Graph (IsLoose)

/-- The error that stands in the place of a type that is cut off. -/
def cutOff (key : String) : SchemaError := (s!"recursive reference on '{key}'", .soft)

theorem cutOff_text (key : String) : (cutOff key).1.toList =
    "recursive reference on '".toList ++ (key.toList ++ "'".toList) := by
  have htext : (cutOff key).1 = "recursive reference on '" ++ key ++ "'" := rfl
  rw [htext, String.toList_append, String.toList_append, List.append_assoc]

theorem cutOff_inj {key key' : String} (h : cutOff key = cutOff key') : key = key' := by
  have htext := congrArg (fun e : SchemaError => e.1.toList) h
  simp only [cutOff_text] at htext
  exact String.toList_inj.1 (List.append_cancel_right (List.append_cancel_left htext))

variable {r : Resolver} {next : TypeRef → Bool → Schema} {key : String}

/-- A key that a declared type has, and that is not registered. -/
def IsOpen (r : Resolver) (key : String) : Prop :=
  r.target? key = none ∧ ∃ d ∈ r.graph.types, d.key = key

/-- Of the types met on the way, only open ones are cut off where it shows. -/
structure CutsOpen (r : Resolver) (next : TypeRef → Bool → Schema) : Prop where
  named : ∀ t key, r.graph.Declares t → cutOff key ∈ (next t false).errors → r.IsOpen key
  embedded : ∀ t key, r.graph.Declares t ∨ IsLoose t →
    cutOff key ∈ memberErrors ((next t true).properties?.getD []) → r.IsOpen key

theorem CutsOpen.shape (h : CutsOpen r next) {t : TypeRef}
    (hcut : cutOff key ∈ (Id.run (shapeSchema r next t)).errors) : r.IsOpen key := by
  cases source_of_shape hcut with
  | unknown shown hmessage => cases (Prod.ext_iff.1 hmessage).2
  | function shown hmessage =>
      -- the message about a function begins with a quote
      have htext := congrArg (fun e : SchemaError => e.1.toList) hmessage
      simp [cutOff_text, toString] at htext
  | named u hu hmem => exact h.named u key hu hmem
  | embedded u hu hmem => exact h.embedded u key hu hmem

theorem CutsOpen.enter {shape : List String → TypeRef → Schema}
    (h : ∀ chain t key, cutOff key ∈ (shape chain t).errors → r.IsOpen key)
    (chain : List String) : CutsOpen r (r.enterOnChain shape chain) where
  named := by
    rintro t key ⟨d, hd, rfl⟩ hcut
    simp only [enterOnChain, Declaration.ref] at hcut
    cases htarget : r.target? d.key with
    | some target => simp [htarget, Schema.errors] at hcut
    | none =>
        simp only [htarget, Bool.false_eq_true, if_false] at hcut
        split at hcut
        · obtain rfl := cutOff_inj (List.mem_singleton.1 hcut)
          exact ⟨htarget, d, hd, rfl⟩
        · exact h _ _ key hcut
  embedded := by
    intro t key _ hcut
    simp only [enterOnChain] at hcut
    split at hcut
    · exact h chain t key (Schema.mem_errors_of_properties hcut)
    · -- a cut has no properties
      simp only [if_true] at hcut
      split at hcut
      · cases hcut
      · exact h _ t key (Schema.mem_errors_of_properties hcut)

theorem chainSchemaWithin_cutsOpen (r : Resolver) (fuel : Nat) : ∀ chain,
    CutsOpen r (r.chainSchemaWithin fuel chain) := by
  induction fuel with
  | zero =>
      refine CutsOpen.enter fun chain t key hcut => ?_
      have htext := congrArg (fun e : SchemaError => e.1.toList) (List.mem_singleton.1 hcut)
      simp [cutOff_text] at htext
  | succ fuel ih => exact CutsOpen.enter fun chain t key hcut => (ih chain).shape hcut

/-- What is resolved first is not cut off, whatever it is. -/
theorem chainSchema_cutsOpen (hbound : 1 ≤ r.options.recursionBound) {t : TypeRef} {inline : Bool}
    (hcut : cutOff key ∈ (r.chainSchema [] t inline).errors) : r.IsOpen key := by
  obtain ⟨n, hn⟩ : ∃ n, r.longestChain = n + 1 := ⟨_, rfl⟩
  rw [chainSchema, hn, chainSchemaWithin, enterOnChain] at hcut
  have hshape (chain : List String)
      (h : cutOff key ∈ (r.shapeOnChain (r.chainSchemaWithin n) chain t).errors) : r.IsOpen key :=
    (chainSchemaWithin_cutsOpen r n chain).shape h
  split at hcut
  · exact hshape _ hcut
  · split at hcut
    · cases hcut
    · rw [List.count_nil, if_neg (by omega)] at hcut
      exact hshape _ hcut

/-- **Registration breaks every cycle**: wherever a schema says that a reference is recursive, the
key that it names is the key of a declared type that is not registered. Where every declared type
is registered, no schema says so. -/
theorem typeSchema_cuts_unregistered (r : Resolver) (hbound : 1 ≤ r.options.recursionBound)
    (t : TypeRef) (inline : Bool) {v : Visits} (hv : v.Counts []) :
    let errors := ((r.typeSchema t inline).run v).1.errors
    (∀ key : String, (s!"recursive reference on '{key}'", Severity.soft) ∈ errors →
        r.target? key = none ∧ ∃ d ∈ r.graph.types, d.key = key) ∧
      ((∀ d ∈ r.graph.types, r.target? d.key ≠ none) →
        ∀ key : String, (s!"recursive reference on '{key}'", Severity.soft) ∉ errors) := by
  intro errors
  have hopen {key : String}
      (hcut : cutOff key ∈ ((r.typeSchema t inline).run v).1.errors) : r.IsOpen key := by
    have hchain : ((r.typeSchema t inline).run v).1 = r.chainSchema [] t inline :=
      (typeSchema_follows r t inline v [] hv).1
    rw [hchain] at hcut
    exact chainSchema_cutsOpen hbound hcut
  refine ⟨fun key hcut => hopen hcut, fun hall key hcut => ?_⟩
  obtain ⟨hnone, d, hd, rfl⟩ := hopen hcut
  exact hall d hd hnone

/-- A registered type that embeds itself, so that it is cut off inside its own definition, and has a
member of a type that is open and contains itself. -/
theorem typeSchema_cuts_unregistered_embedding :
    let node : Declaration := ⟨"zoo.Node", "Node", "zoo", .empty,
      .struct [⟨"Next", .pointer (.named "Node"), .empty, [], false⟩], []⟩
    let pet : Declaration := ⟨"zoo.Pet", "Pet", "zoo", .empty,
      .struct [⟨"Pet", .pointer (.named "Pet"), .empty, [], true⟩,
        ⟨"Path", .named "Node", .empty, [], false⟩], []⟩
    let g : Graph := ⟨"", ["zoo"], [("zoo", ⟨"zoo", []⟩)], [node, pet], []⟩
    let r : Resolver := ⟨g, .default, [("zoo.Pet", "#/components/schemas/Pet")]⟩
    let errors := ((r.typeSchema pet.ref true).run []).1.errors
    1 ≤ r.options.recursionBound ∧ Visits.Counts [] [] ∧
      ("recursive reference on 'zoo.Node'", Severity.soft) ∈ errors ∧
      ∀ key : String, (s!"recursive reference on '{key}'", Severity.soft) ∈ errors →
        r.target? key = none ∧ ∃ d ∈ r.graph.types, d.key = key := by
  intro node pet g r errors
  have hbound : 1 ≤ r.options.recursionBound := by decide
  exact ⟨hbound, Visits.Counts.nil, by decide +kernel,
    (typeSchema_cuts_unregistered r hbound pet.ref true Visits.Counts.nil).1⟩

end SchemaWeave.Resolver
