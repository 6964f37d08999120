import SchemaWeave.Proofs.Schema.Composition
import SchemaWeave.Proofs.Schema.Errors

/-!
Schemas without hard errors. A `Sound` schema has none where `hasError` looks, a `Flawless` one has
none at all, not even in the list of a composition's properties. Either is decided part by part, and
compositions aside both in the same way (`Schema.Tracks`). A schema is `Overt` if it is flawless as
soon as it is sound, so that `hasError` overlooks nothing.
-/

namespace SchemaWeave.Schema

variable {s : Schema} {properties flattened : List (Member Schema)} {members : List Schema}
  {description : Option String} {sample : Option Node} {modifiers : List Modifier}

/-- No hard error stands anywhere in a schema, the list of a composition's properties included. -/
def Flawless (s : Schema) : Prop := ∀ message, ¬ (hardError message).Within s

/-- Where `hasError` looks is a place in the schema. -/
theorem Holds.within {e : SchemaError} (h : Holds e s) : (error e.1 e.2).Within s := by
  induction h with
  | root => exact .root
  | property hm _ description sample modifiers ih => exact .property hm ih _ _ _
  | items _ description ih => exact .items ih _
  | member hs _ flattened ih => exact .member hs ih _

theorem Flawless.sound (h : s.Flawless) : s.Sound := fun message hholds => h message hholds.within

/-! ### Part by part -/

/-- Compositions aside, a schema satisfies the predicate if its parts do, and an error does if it is
not a hard one. -/
structure Tracks (P : Schema → Prop) : Prop where
  object (properties : List (Member Schema)) (description : Option String) (sample : Option Node)
    (modifiers : List Modifier) :
    P (.object properties description sample modifiers) ↔ ∀ m ∈ properties, P m.schema
  array (s : Schema) (description : Option String) : P (.array s description) ↔ P s
  scalar (s : ScalarSchema) : P (.scalar s)
  ref (target : String) : P (.ref target)
  any (description : Option String) : P (.any description)
  error (message : String) (severity : Severity) : P (.error message severity) ↔ severity = .soft

theorem Tracks.describe {P : Schema → Prop} (h : Tracks P) (text : String) (s : Schema) :
    P (s.describe text) ↔ P s := by
  unfold Schema.describe
  split
  · rfl
  · cases s with
    | object => simp only [h.object]
    | array => simp only [h.array]
    | scalar => exact iff_of_true (h.scalar _) (h.scalar _)
    | any => exact iff_of_true (h.any _) (h.any _)
    | ref | allOf | error => rfl

theorem Tracks.softError {P : Schema → Prop} (h : Tracks P) (message : String) :
    P (softError message) := (h.error message .soft).2 rfl

theorem sound_tracks : Tracks Sound where
  object properties description sample modifiers := by
    constructor
    · exact fun h m hm message hholds => h message (.property hm hholds _ _ _)
    · intro h message hholds
      cases hholds with
      | property hm hholds => exact h _ hm message hholds
  array s description := by
    constructor
    · exact fun h message hholds => h message (.items hholds _)
    · intro h message hholds
      cases hholds with
      | items hholds => exact h message hholds
  scalar _ _ hholds := by cases hholds
  ref _ _ hholds := by cases hholds
  any _ _ hholds := by cases hholds
  error message severity := by
    constructor
    · intro h
      cases severity with
      | hard => exact absurd .root (h message)
      | soft => rfl
    · rintro rfl _ hholds
      cases hholds

theorem flawless_tracks : Tracks Flawless where
  object properties description sample modifiers := by
    constructor
    · exact fun h m hm message hwithin => h message (.property hm hwithin _ _ _)
    · intro h message hwithin
      cases hwithin with
      | property hm hwithin => exact h _ hm message hwithin
  array s description := by
    constructor
    · exact fun h message hwithin => h message (.items hwithin _)
    · intro h message hwithin
      cases hwithin with
      | items hwithin => exact h message hwithin
  scalar _ _ hwithin := by cases hwithin
  ref _ _ hwithin := by cases hwithin
  any _ _ hwithin := by cases hwithin
  error message severity := by
    constructor
    · intro h
      cases severity with
      | hard => exact absurd .root (h message)
      | soft => rfl
    · rintro rfl _ hwithin
      cases hwithin

theorem sound_allOf : (allOf members flattened).Sound ↔ ∀ s ∈ members, s.Sound := by
  constructor
  · exact fun h s hs message hholds => h message (.member hs hholds _)
  · intro h message hholds
    cases hholds with
    | member hs hholds => exact h _ hs message hholds

theorem flawless_allOf : (allOf members flattened).Flawless ↔
    (∀ s ∈ members, s.Flawless) ∧ ∀ m ∈ flattened, m.schema.Flawless := by
  constructor
  · exact fun h => ⟨fun s hs message hwithin => h message (.member hs hwithin _),
      fun m hm message hwithin => h message (.listed hm hwithin _)⟩
  · intro h message hwithin
    cases hwithin with
    | member hs hwithin => exact h.1 _ hs message hwithin
    | listed hm hwithin => exact h.2 _ hm message hwithin

/-- The properties that a flawless schema exposes are flawless. -/
theorem Flawless.of_property (h : s.Flawless) {m : Member Schema}
    (hm : m ∈ s.properties?.getD []) : m.schema.Flawless :=
  fun message hwithin => h message (within_of_property hm hwithin)

/-! ### Nothing is overlooked -/

/-- Where a hard error stands in the schema at all, one stands where `hasError` looks. -/
def Overt (s : Schema) : Prop := s.Sound → s.Flawless

theorem overt_object (h : ∀ m ∈ properties, m.schema.Overt) :
    (object properties description sample modifiers).Overt := by
  intro hsound
  rw [flawless_tracks.object]
  rw [sound_tracks.object] at hsound
  exact fun m hm => h m hm (hsound m hm)

theorem overt_array (h : s.Overt) : (array s description).Overt := fun hsound =>
  (flawless_tracks.array s description).2 (h ((sound_tracks.array s description).1 hsound))

theorem overt_scalar (scalar : ScalarSchema) : (Schema.scalar scalar).Overt :=
  fun _ => flawless_tracks.scalar scalar

theorem overt_any : (any description).Overt := fun _ => flawless_tracks.any description

theorem overt_error (message : String) (severity : Severity) : (error message severity).Overt :=
  fun hsound => (flawless_tracks.error message severity).2
    ((sound_tracks.error message severity).1 hsound)

/-- A call that is chained to a schema holds data, and no schema. -/
theorem Overt.modify (h : s.Overt) (m : Modifier) : (s.modify m).Overt := by
  cases s with
  | object =>
      intro hsound
      rw [Schema.modify, sound_tracks.object] at hsound
      rw [Schema.modify, flawless_tracks.object]
      rw [Overt, sound_tracks.object, flawless_tracks.object] at h
      exact h hsound
  | array | scalar | ref | allOf | any | error => exact h

end SchemaWeave.Schema
