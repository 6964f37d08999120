import SchemaWeave.Proofs.Completion.Directives
import SchemaWeave.Proofs.Schema.Errors

/-!
What putting a value into the document records. Data is written as it is; everything else in a value
stands for a schema (`leafSchemas`), and those in which a hard error is found are counted, each once
(`recordOf_lower`). A name that was not found stands for a schema with a hard error.

`Clean` is the contract of an action that records no error. Along `>>=` both parts have to be clean.
-/

namespace SchemaWeave

variable {α β γ : Type}

namespace Record

/-- The record of schemas with hard errors, as many as given. -/
def hardErrors (n : Nat) : Record := ⟨[], n, []⟩

theorem hardErrors_append (m n : Nat) :
    (hardErrors m).append (hardErrors n) = hardErrors (m + n) := rfl

end Record

theorem recordOf_bind_pure {a : Pass α} (ha : Isolates a) (f : α → β) :
    recordOf (a >>= fun x => pure (f x)) = recordOf a := by
  rw [(ha.run_bind (isolates_pure (f _))).2]
  exact Record.append_empty _

namespace Value

mutual

/-- The names in a value that were not found. -/
def missingNames : Value → List Missing
  | .missing m => [m]
  | .map entries => missingInEntries entries
  | .list items => missingInItems items
  | .null => []
  | .bool _ => []
  | .number _ => []
  | .string _ => []
  | .type _ => []
  | .package .. => []
  | .schema _ => []
  | .function _ => []

def missingInItems : List Value → List Missing
  | [] => []
  | item :: rest => missingNames item ++ missingInItems rest

def missingInEntries : List (String × Value) → List Missing
  | [] => []
  | (_, value) :: rest => missingNames value ++ missingInEntries rest

end

end Value

namespace Setting

/-- The schema that a value which is no data stands for in the document. -/
def schemaFor (s : Setting) (v : Value) : Schema := ((s.resolver.valueSchema false v).run []).1

mutual

/-- The schemas in the document form of a value. -/
def leafSchemas (s : Setting) : Value → List Schema
  | .map entries => leafSchemasOfEntries s entries
  | .list items => leafSchemasOfItems s items
  | .schema schema => [schema]
  | .null => []
  | .bool _ => []
  | .number _ => []
  | .string _ => []
  | .type t => [s.schemaFor (.type t)]
  | .package name path => [s.schemaFor (.package name path)]
  | .function f => [s.schemaFor (.function f)]
  | .missing m => [s.schemaFor (.missing m)]

def leafSchemasOfItems (s : Setting) : List Value → List Schema
  | [] => []
  | item :: rest => leafSchemas s item ++ leafSchemasOfItems s rest

def leafSchemasOfEntries (s : Setting) : List (String × Value) → List Schema
  | [] => []
  | (_, value) :: rest => leafSchemas s value ++ leafSchemasOfEntries s rest

end

variable {s : Setting}

theorem recordOf_render (schema : Schema) :
    recordOf (render schema) = .hardErrors ([schema].countP Schema.containsHardError) := by
  rw [(render_isolated schema).run_start.2, Record.hardErrors]
  cases h : schema.containsHardError <;> simp [h]

theorem recordOf_resolve {a : Resolving α} (h : Steady a) : recordOf (resolve a) = .empty := by
  obtain ⟨f, hf⟩ := h
  exact (resolve_isolated hf).run_start.2

theorem recordOf_schemaFor (v : Value) :
    recordOf (do render (← resolve (s.resolver.valueSchema false v))) =
      .hardErrors ([s.schemaFor v].countP Schema.containsHardError) := by
  have hsteady := s.resolver.valueSchema_steady false v
  rw [((resolve_isolates hsteady).run_bind (render_isolated _).isolates).2,
    recordOf_resolve hsteady, recordOf_render]
  simp [Record.append, Record.empty, Record.hardErrors]
  rfl

mutual

/-- Putting a value into the document counts its schemas with hard errors, and does nothing else. -/
theorem recordOf_lower (s : Setting) : ∀ v,
    recordOf (s.lower v) = .hardErrors ((s.leafSchemas v).countP Schema.containsHardError)
  | .map entries => by
      rw [lower, recordOf_bind_pure (lowerEntries_isolates s entries), recordOf_lowerEntries,
        leafSchemas]
  | .list items => by
      rw [lower, recordOf_bind_pure (lowerItems_isolates s items), recordOf_lowerItems,
        leafSchemas]
  | .schema schema => recordOf_render schema
  | .null => rfl
  | .bool _ => rfl
  | .number _ => rfl
  | .string _ => rfl
  | .type _ => recordOf_schemaFor _
  | .package .. => recordOf_schemaFor _
  | .function _ => recordOf_schemaFor _
  | .missing _ => recordOf_schemaFor _

theorem recordOf_lowerItems (s : Setting) : ∀ items, recordOf (s.lowerItems items) =
    .hardErrors ((s.leafSchemasOfItems items).countP Schema.containsHardError)
  | [] => rfl
  | item :: rest => by
      have hrest := lowerItems_isolates s rest
      rw [lowerItems, ((lower_isolates s item).run_bind (hrest.bind fun _ => isolates_pure _)).2,
        recordOf_bind_pure hrest, recordOf_lower s item, recordOf_lowerItems s rest,
        Record.hardErrors_append, leafSchemasOfItems, List.countP_append]

theorem recordOf_lowerEntries (s : Setting) : ∀ entries, recordOf (s.lowerEntries entries) =
    .hardErrors ((s.leafSchemasOfEntries entries).countP Schema.containsHardError)
  | [] => rfl
  | (_, v) :: rest => by
      have hrest := lowerEntries_isolates s rest
      rw [lowerEntries, ((lower_isolates s v).run_bind (hrest.bind fun _ => isolates_pure _)).2,
        recordOf_bind_pure hrest, recordOf_lower s v, recordOf_lowerEntries s rest,
        Record.hardErrors_append, leafSchemasOfEntries, List.countP_append]

end

/-- The schemas in the document form of a value are sound. -/
def LowersCleanly (s : Setting) (v : Value) : Prop :=
  ∀ schema ∈ s.leafSchemas v, schema.Sound

theorem lowersCleanly_iff {v : Value} :
    s.LowersCleanly v ↔ (s.leafSchemas v).countP Schema.containsHardError = 0 := by
  simp [LowersCleanly, List.countP_eq_zero, ← Schema.containsHardError_eq_false_iff]

mutual

/-- A name that was not found is never put into the document unnoticed. -/
theorem LowersCleanly.missingNames_eq_nil (s : Setting) : ∀ v,
    s.LowersCleanly v → v.missingNames = []
  | .missing m, h => by
      have hsound : (s.schemaFor (.missing m)).Sound := h _ (List.mem_singleton.2 rfl)
      exact absurd .root (hsound m.message)
  | .map entries, h => LowersCleanly.missingInEntries_eq_nil s entries h
  | .list items, h => LowersCleanly.missingInItems_eq_nil s items h
  | .null, _ => rfl
  | .bool _, _ => rfl
  | .number _, _ => rfl
  | .string _, _ => rfl
  | .type _, _ => rfl
  | .package .., _ => rfl
  | .schema _, _ => rfl
  | .function _, _ => rfl

theorem LowersCleanly.missingInItems_eq_nil (s : Setting) : ∀ items,
    (∀ schema ∈ s.leafSchemasOfItems items, schema.Sound) →
      Value.missingInItems items = []
  | [], _ => rfl
  | item :: rest, h => by
      rw [leafSchemasOfItems, List.forall_mem_append] at h
      rw [Value.missingInItems, LowersCleanly.missingNames_eq_nil s item h.1,
        LowersCleanly.missingInItems_eq_nil s rest h.2, List.append_nil]

theorem LowersCleanly.missingInEntries_eq_nil (s : Setting) : ∀ entries,
    (∀ schema ∈ s.leafSchemasOfEntries entries, schema.Sound) →
      Value.missingInEntries entries = []
  | [], _ => rfl
  | (_, v) :: rest, h => by
      rw [leafSchemasOfEntries, List.forall_mem_append] at h
      rw [Value.missingInEntries, LowersCleanly.missingNames_eq_nil s v h.1,
        LowersCleanly.missingInEntries_eq_nil s rest h.2, List.append_nil]

end

end Setting

/-! ### Actions that record no error -/

/-- No directive failed, and no schema had a hard error. -/
def Record.Clean (w : Record) : Prop := w.diagnostics = [] ∧ w.inlineErrors = 0

theorem Record.clean_append {w w' : Record} : (w.append w').Clean ↔ w.Clean ∧ w'.Clean := by
  simp only [Record.Clean, Record.append, List.append_eq_nil_iff, Nat.add_eq_zero_iff]
  grind

/-- In a fresh pass the action records no error. -/
def Clean (a : Pass α) : Prop := (recordOf a).Clean

theorem clean_pure (x : α) : Clean (pure x) := ⟨rfl, rfl⟩

theorem clean_bind {a : Pass α} {b : α → Pass β} (ha : Isolates a) (hb : ∀ x, Isolates (b x)) :
    Clean (a >>= b) ↔ Clean a ∧ Clean (b (a.run .start).1) := by
  rw [Clean, (ha.run_bind (hb _)).2, Record.clean_append]
  rfl

theorem clean_bind_pure {a : Pass α} (ha : Isolates a) (f : α → β) :
    Clean (a >>= fun x => pure (f x)) ↔ Clean a := by
  rw [Clean, recordOf_bind_pure ha, Clean]

/-- Two actions one after the other, neither of which looks at the other's answer. -/
theorem clean_both {a : Pass α} {b : Pass β} (ha : Isolates a) (hb : Isolates b)
    (f : α → β → γ) : Clean (do let x ← a; let y ← b; return f x y) ↔ Clean a ∧ Clean b := by
  rw [clean_bind ha fun _ => hb.bind fun _ => isolates_pure _, clean_bind_pure hb]

namespace Setting

variable {s : Setting}

theorem not_clean_fail (crumbs : List String) (key message : String) :
    ¬ Clean (fail crumbs key message) := by
  rw [Clean, (fail_isolated crumbs key message).run_start.2]
  exact fun h => List.cons_ne_nil _ _ h.1

theorem clean_resolve_bind {a : Resolving α} {b : α → Pass β} (ha : Steady a)
    (hb : ∀ x, Isolates (b x)) : Clean (resolve a >>= b) ↔ Clean (b (a.run []).1) := by
  have hclean : Clean (resolve a) := by
    rw [Clean, recordOf_resolve ha]
    exact ⟨rfl, rfl⟩
  rw [clean_bind (resolve_isolates ha) hb]
  exact and_iff_right hclean

theorem clean_render (schema : Schema) : Clean (render schema) ↔ schema.Sound := by
  rw [Clean, recordOf_render, ← Schema.containsHardError_eq_false_iff]
  cases h : schema.containsHardError <;> simp [Record.Clean, Record.hardErrors, h]

theorem clean_lower (v : Value) : Clean (s.lower v) ↔ s.LowersCleanly v := by
  rw [Clean, recordOf_lower, lowersCleanly_iff]
  simp [Record.Clean, Record.hardErrors]

end Setting

end SchemaWeave
