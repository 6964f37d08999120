import SchemaWeave.Complete.Expand
import SchemaWeave.Proofs.Resolving.Evaluation

/-!
Directives do not influence one another. `Isolated` is the contract of every action of a pass
between two resolutions: it answers the same whatever was recorded before, and adds the same record
to what it finds. The contract composes along `>>=`, records one after the other, so a map expands
entry by entry.

Hosts are without memory here: `Setting.Memoryless` says that a reply depends on the call alone.
-/

namespace SchemaWeave

/-- What an action adds to the record of a pass. -/
structure Record where
  diagnostics : List Diagnostic
  inlineErrors : Nat
  calls : List HostCall

namespace Record

def empty : Record := ⟨[], 0, []⟩

/-- One record after the other. -/
def append (w w' : Record) : Record :=
  ⟨w.diagnostics ++ w'.diagnostics, w.inlineErrors + w'.inlineErrors, w.calls ++ w'.calls⟩

theorem append_empty (w : Record) : w.append empty = w := by
  simp [append, empty]

theorem empty_append (w : Record) : empty.append w = w := by
  simp [append, empty]

end Record

namespace Progress

/-- No type is being resolved. -/
def Settled (p : Progress) : Prop := Visits.Counts p.visits []

theorem settled_start : start.Settled := Visits.Counts.nil

/-- The progress with a record added, and with other counters. -/
def add (p : Progress) (v : Visits) (w : Record) : Progress :=
  ⟨v, p.diagnostics ++ w.diagnostics, p.inlineErrors + w.inlineErrors, p.calls ++ w.calls⟩

theorem add_empty (p : Progress) (v : Visits) : p.add v .empty = { p with visits := v } := by
  simp [add, Record.empty]

theorem add_add (p : Progress) (v v' : Visits) (w w' : Record) :
    (p.add v w).add v' w' = p.add v' (w.append w') := by
  simp [add, Record.append, Nat.add_assoc]

end Progress

variable {α β : Type}

/-- Between two resolutions the action answers `x` and adds the record `w`. -/
def Isolated (a : Pass α) (x : α) (w : Record) : Prop :=
  ∀ p, p.Settled → ∃ v, Visits.Counts v [] ∧ a.run p = (x, p.add v w)

/-- An action that is isolated, with some answer and some record. -/
def Isolates (a : Pass α) : Prop := ∃ x w, Isolated a x w

theorem isolated_pure (x : α) : Isolated (pure x) x .empty :=
  fun p hp => ⟨p.visits, hp, by rw [Progress.add_empty]; rfl⟩

theorem Isolated.bind {a : Pass α} {x : α} {w : Record} {b : α → Pass β} {y : β} {w' : Record}
    (ha : Isolated a x w) (hb : Isolated (b x) y w') : Isolated (a >>= b) y (w.append w') := by
  intro p hp
  obtain ⟨v, hv, ha⟩ := ha p hp
  obtain ⟨v', hv', hb⟩ := hb (p.add v w) hv
  refine ⟨v', hv', ?_⟩
  have hrun : (a >>= b).run p = (b (a.run p).1).run (a.run p).2 := rfl
  rw [hrun, ha, hb, Progress.add_add]

theorem Isolated.map {a : Pass α} {x : α} {w : Record} (ha : Isolated a x w) (f : α → β) :
    Isolated (do return f (← a)) (f x) w := by
  have hmap : Isolated (a >>= fun y => pure (f y)) (f x) (w.append .empty) :=
    ha.bind (isolated_pure (f x))
  rwa [Record.append_empty] at hmap

theorem Isolated.isolates {a : Pass α} {x : α} {w : Record} (h : Isolated a x w) : Isolates a :=
  ⟨x, w, h⟩

theorem isolates_pure (x : α) : Isolates (pure x : Pass α) := ⟨x, _, isolated_pure x⟩

theorem Isolates.bind {a : Pass α} {b : α → Pass β} (ha : Isolates a)
    (hb : ∀ x, Isolates (b x)) : Isolates (a >>= b) := by
  obtain ⟨x, w, ha⟩ := ha
  obtain ⟨y, w', hb⟩ := hb x
  exact ⟨y, _, ha.bind hb⟩

/-- What an action adds to the record of a pass that has recorded nothing. -/
def recordOf (a : Pass α) : Record :=
  let p := (a.run .start).2
  ⟨p.diagnostics, p.inlineErrors, p.calls⟩

theorem Isolated.run_start {a : Pass α} {x : α} {w : Record} (h : Isolated a x w) :
    (a.run .start).1 = x ∧ recordOf a = w := by
  obtain ⟨v, -, hrun⟩ := h .start Progress.settled_start
  simp only [recordOf, hrun]
  simp [Progress.add, Progress.start]

/-- An isolated action behaves in every pass as it does in a fresh one. -/
theorem Isolates.isolated {a : Pass α} (h : Isolates a) :
    Isolated a (a.run .start).1 (recordOf a) := by
  obtain ⟨x, w, hx⟩ := h
  obtain ⟨hanswer, hrecord⟩ := hx.run_start
  rw [hanswer, hrecord]
  exact hx

namespace Setting

/-- The reply of the host depends on the call alone. -/
def Memoryless (s : Setting) : Prop := ∃ reply, s.host = Host.ofReply reply

theorem resolve_isolated {a : Resolving α} {f : List String → α} (h : Follows a f) :
    Isolated (resolve a) (f []) .empty := by
  intro p hp
  obtain ⟨hx, hv⟩ := h p.visits [] hp
  refine ⟨(a.run p.visits).2, hv, ?_⟩
  rw [Progress.add_empty, ← hx]
  rfl

theorem resolve_isolates {a : Resolving α} (h : Steady a) : Isolates (resolve a) := by
  obtain ⟨f, hf⟩ := h
  exact ⟨f [], .empty, resolve_isolated hf⟩

theorem render_isolated (schema : Schema) : Isolated (render schema) schema.toNode
    ⟨[], if schema.containsHardError then 1 else 0, []⟩ := by
  refine fun p hp => ⟨p.visits, hp, ?_⟩
  cases hhard : schema.containsHardError <;> simp [render, hhard, Progress.add] <;> rfl

theorem fail_isolated (crumbs : List String) (key message : String) :
    Isolated (fail crumbs key message) (.map [("error", .string message)])
      ⟨[⟨".".intercalate (crumbs ++ [key]), message⟩], 0, []⟩ := by
  refine fun p hp => ⟨p.visits, hp, ?_⟩
  simp [fail, Progress.add]
  rfl

variable {s : Setting}

theorem askHost_isolated {reply : HostCall → Except HostError Node}
    (hs : s.host = Host.ofReply reply) (call : HostCall) :
    Isolated (s.askHost call) (reply call) ⟨[], 0, [call]⟩ := by
  refine fun p hp => ⟨p.visits, hp, ?_⟩
  have hrun : (s.askHost call).run p =
      (s.host p.calls call, { p with calls := p.calls ++ [call] }) := rfl
  rw [hrun, hs]
  simp [Host.ofReply, Progress.add]

theorem evaluate_isolates (code : String) (file : Option String) :
    Isolates (s.evaluate code file) :=
  resolve_isolates (Expr.evalText_steady (Expr.fileScope_steady ..) code)

mutual

theorem lower_isolates (s : Setting) : ∀ v, Isolates (s.lower v)
  | .map entries => (lowerEntries_isolates s entries).bind fun _ => isolates_pure _
  | .list items => (lowerItems_isolates s items).bind fun _ => isolates_pure _
  | .schema schema => (render_isolated schema).isolates
  | .null => isolates_pure _
  | .bool _ => isolates_pure _
  | .number _ => isolates_pure _
  | .string _ => isolates_pure _
  | .type _ => (resolve_isolates (s.resolver.valueSchema_steady false _)).bind fun schema =>
      (render_isolated schema).isolates
  | .package .. => (resolve_isolates (s.resolver.valueSchema_steady false _)).bind fun schema =>
      (render_isolated schema).isolates
  | .function _ => (resolve_isolates (s.resolver.valueSchema_steady false _)).bind fun schema =>
      (render_isolated schema).isolates
  | .missing _ => (resolve_isolates (s.resolver.valueSchema_steady false _)).bind fun schema =>
      (render_isolated schema).isolates

theorem lowerItems_isolates (s : Setting) : ∀ items, Isolates (s.lowerItems items)
  | [] => isolates_pure _
  | item :: rest => (lower_isolates s item).bind fun _ =>
      (lowerItems_isolates s rest).bind fun _ => isolates_pure _

theorem lowerEntries_isolates (s : Setting) : ∀ entries, Isolates (s.lowerEntries entries)
  | [] => isolates_pure _
  | (_, v) :: rest => (lower_isolates s v).bind fun _ =>
      (lowerEntries_isolates s rest).bind fun _ => isolates_pure _

end

theorem expandText_isolates (text : String) (file : Option String) :
    Isolates (s.expandText text file) := by
  simp only [expandText]
  cases (ExpressionForm.detect text).code? with
  | none => exact isolates_pure _
  | some code =>
      refine (evaluate_isolates code file).bind fun result => ?_
      cases result with
      | ok v =>
          dsimp only
          split
          · exact (lower_isolates s v).bind fun _ => isolates_pure _
          · exact isolates_pure _
      | error e =>
          dsimp only
          split
          · exact isolates_pure _
          · exact isolates_pure _

theorem expressionDirective_isolates (key : String) (value : Node) (file : Option String)
    (crumbs : List String) : Isolates (s.expressionDirective key value file crumbs) := by
  cases value with
  | string code =>
      refine (evaluate_isolates code file).bind fun result => ?_
      cases result with
      | ok v => exact lower_isolates s v
      | error e => exact (fail_isolated crumbs key e.message).isolates
  | null | bool | number | list | map => exact (fail_isolated crumbs key _).isolates

theorem metadataText_isolates (file : String) (crumbs : List String) (key text : String) :
    Isolates (s.metadataText file crumbs key text) := by
  refine (expandText_isolates text (some file)).bind fun result => ?_
  cases result with
  | ok found => cases found <;> exact isolates_pure _
  | error e => exact (fail_isolated crumbs key e.message).isolates

mutual

theorem expandMetadata_isolates (s : Setting) (file : String) : ∀ crumbs entries,
    Isolates (s.expandMetadata file crumbs entries)
  | _, [] => isolates_pure _
  | crumbs, (key, value) :: rest => by
      rw [expandMetadata]
      cases expressionKey? key with
      | some name =>
          refine (Isolates.bind ?_ fun _ => isolates_pure _).bind fun _ =>
            (expandMetadata_isolates s file crumbs rest).bind fun _ => isolates_pure _
          exact expressionDirective_isolates key value (some file) crumbs
      | none =>
          refine (Isolates.bind ?_ fun _ => isolates_pure _).bind fun _ =>
            (expandMetadata_isolates s file crumbs rest).bind fun _ => isolates_pure _
          exact expandMetadataNode_isolates s file crumbs key value

theorem expandMetadataNode_isolates (s : Setting) (file : String) : ∀ crumbs key value,
    Isolates (s.expandMetadataNode file crumbs key value)
  | crumbs, key, .string text => metadataText_isolates file crumbs key text
  | crumbs, key, .map entries =>
      (expandMetadata_isolates s file (crumbs ++ [key]) entries).bind fun _ => isolates_pure _
  | _, _, .null => isolates_pure _
  | _, _, .bool _ => isolates_pure _
  | _, _, .number _ => isolates_pure _
  | _, _, .list _ => isolates_pure _

end

end Setting

end SchemaWeave
