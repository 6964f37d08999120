import SchemaWeave.Proofs.Completion.Isolation

/-!
The expansion of a map, entry by entry. With a host without memory every entry expands as in a pass
of its own: `expandEntries_isolates` gives the entries that take its place and the record that it
adds, whatever stands before and after it, and `expandEntries_append` the same for any cut of the
entries into two parts.
-/

namespace SchemaWeave.Setting

variable {s : Setting}

theorem typeDocument_isolates (s : Setting) (t : TypeRef) (crumbs : List String) :
    Isolates (s.typeDocument t crumbs) := by
  refine (expandMetadata_isolates s t.file (crumbs ++ ["meta"]) t.doc.metadata).bind fun _ => ?_
  dsimp only
  split
  · exact isolates_pure _
  · refine (resolve_isolates (s.resolver.typeSchema_steady t _)).bind fun schema => ?_
    exact (render_isolated schema).isolates.bind fun _ => isolates_pure _

theorem directiveText_isolates (s : Setting) (text : String) (crumbs : List String) :
    Isolates (s.directiveText text crumbs) := by
  simp only [directiveText]
  split
  · cases s.resolver.graph.resolvePath (s.resolver.graph.normalize text) with
    | some t => exact (typeDocument_isolates s t crumbs).bind fun _ => isolates_pure _
    | none => exact isolates_pure _
  · refine (expandText_isolates text none).bind fun result => ?_
    cases result with
    | ok found => exact isolates_pure _
    | error e => exact isolates_pure _

theorem hostReply_isolates (hs : s.Memoryless) (crumbs : List String) (key : String)
    (value : Node) : Isolates (s.hostReply crumbs key value) := by
  obtain ⟨reply, hs⟩ := hs
  refine (askHost_isolated hs _).isolates.bind fun result => ?_
  cases result with
  | ok node => cases node <;> exact isolates_pure _
  | error e => exact (fail_isolated crumbs key e.message).isolates.bind fun _ => isolates_pure _

/-- Expands one entry of a map at the given place. -/
def expandEntry (s : Setting) (crumbs : List String) (entry : String × Node) : Pass Entries :=
  if isHostDirective entry.1 then s.expandHostDirective crumbs entry.1 entry.2
  else
    match expressionKey? entry.1 with
    | some name => do
      let node ← s.expressionDirective entry.1 entry.2 none crumbs
      return [(name, node)]
    | none => do
      let node ← s.expandNode (crumbs ++ [entry.1]) entry.2
      return [(entry.1, node)]

theorem expandEntries_cons (s : Setting) (crumbs : List String) (entry : String × Node)
    (rest : List (String × Node)) :
    s.expandEntries crumbs (entry :: rest) = do
      let here ← s.expandEntry crumbs entry
      let others ← s.expandEntries crumbs rest
      return here ++ others := by
  obtain ⟨key, value⟩ := entry
  rw [expandEntries, expandEntry]
  dsimp only
  split
  · rfl
  · cases expressionKey? key <;> simp only [bind_assoc, pure_bind]

private theorem expandEntry_isolates_of {crumbs : List String} {key : String} {value : Node}
    (hhost : Isolates (s.expandHostDirective crumbs key value))
    (hnode : Isolates (s.expandNode (crumbs ++ [key]) value)) :
    Isolates (s.expandEntry crumbs (key, value)) := by
  simp only [expandEntry]
  split
  · exact hhost
  · cases expressionKey? key with
    | some name =>
        exact (expressionDirective_isolates key value none crumbs).bind fun _ => isolates_pure _
    | none => exact hnode.bind fun _ => isolates_pure _

mutual

theorem expandEntries_isolates (hs : s.Memoryless) : ∀ crumbs entries,
    Isolates (s.expandEntries crumbs entries)
  | _, [] => isolates_pure _
  | crumbs, (key, value) :: rest => by
      rw [expandEntries_cons]
      exact (expandEntry_isolates_of (expandHostDirective_isolates hs crumbs key value)
        (expandNode_isolates hs (crumbs ++ [key]) value)).bind fun _ =>
          (expandEntries_isolates hs crumbs rest).bind fun _ => isolates_pure _

theorem expandHostDirective_isolates (hs : s.Memoryless) : ∀ crumbs key value,
    Isolates (s.expandHostDirective crumbs key value)
  | crumbs, key, .string text => (directiveText_isolates s text crumbs).bind fun result => by
      cases result with
      | ok value => exact hostReply_isolates hs crumbs key value
      | error e =>
          exact (fail_isolated crumbs key e.message).isolates.bind fun _ => isolates_pure _
  | crumbs, key, .map entries => (expandEntries_isolates hs (crumbs ++ [key]) entries).bind
      fun _ => hostReply_isolates hs crumbs key _
  | crumbs, key, .list items => (expandItems_isolates hs (crumbs ++ [key]) 0 items).bind
      fun _ => hostReply_isolates hs crumbs key _
  | crumbs, key, .null => hostReply_isolates hs crumbs key _
  | crumbs, key, .bool _ => hostReply_isolates hs crumbs key _
  | crumbs, key, .number _ => hostReply_isolates hs crumbs key _

theorem expandNode_isolates (hs : s.Memoryless) : ∀ crumbs node,
    Isolates (s.expandNode crumbs node)
  | crumbs, .map entries => (expandEntries_isolates hs crumbs entries).bind fun _ =>
      isolates_pure _
  | crumbs, .list items => (expandItems_isolates hs crumbs 0 items).bind fun _ => isolates_pure _
  | _, .null => isolates_pure _
  | _, .bool _ => isolates_pure _
  | _, .number _ => isolates_pure _
  | _, .string _ => isolates_pure _

theorem expandItems_isolates (hs : s.Memoryless) : ∀ crumbs index items,
    Isolates (s.expandItems crumbs index items)
  | _, _, [] => isolates_pure _
  | crumbs, index, item :: rest =>
      (expandNode_isolates hs (crumbs ++ [Nat.repr index]) item).bind fun _ =>
        (expandItems_isolates hs crumbs (index + 1) rest).bind fun _ => isolates_pure _

end

theorem expandEntry_isolates (hs : s.Memoryless) (crumbs : List String) (entry : String × Node) :
    Isolates (s.expandEntry crumbs entry) :=
  expandEntry_isolates_of (expandHostDirective_isolates hs crumbs entry.1 entry.2)
    (expandNode_isolates hs (crumbs ++ [entry.1]) entry.2)

/-- Two parts of a map expand one after the other, at the same place of the document. -/
theorem expandEntries_append_eq (s : Setting) (crumbs : List String)
    (first second : List (String × Node)) :
    s.expandEntries crumbs (first ++ second) = do
      let a ← s.expandEntries crumbs first
      let b ← s.expandEntries crumbs second
      return a ++ b := by
  induction first with
  | nil => simp [expandEntries]
  | cons entry rest ih =>
      simp only [List.cons_append, expandEntries_cons, ih, bind_assoc, pure_bind,
        List.append_assoc]

theorem append_isolated (hs : s.Memoryless) (crumbs : List String)
    (first second : List (String × Node)) :
    Isolated (s.expandEntries crumbs (first ++ second))
      (((s.expandEntries crumbs first).run .start).1 ++
        ((s.expandEntries crumbs second).run .start).1)
      ((recordOf (s.expandEntries crumbs first)).append
        ((recordOf (s.expandEntries crumbs second)).append .empty)) := by
  rw [expandEntries_append_eq]
  exact (expandEntries_isolates hs crumbs first).isolated.bind
    ((expandEntries_isolates hs crumbs second).isolated.bind (isolated_pure _))

/-- **Directives are isolated from each other**: two parts of a map expand, and are recorded, each
as in a fresh pass over it alone, one after the other; so whatever an entry between them is, and
whether it fails, the parts expand as they do without it. -/
theorem expandEntries_append (hs : s.Memoryless) (crumbs : List String)
    (first second : List (String × Node)) {p : Progress} (hp : p.Settled) :
    let alone entries := (s.expandEntries crumbs entries).run .start
    let both := (s.expandEntries crumbs (first ++ second)).run p
    both.1 = (alone first).1 ++ (alone second).1 ∧
      both.2.diagnostics =
        p.diagnostics ++ (alone first).2.diagnostics ++ (alone second).2.diagnostics ∧
      both.2.inlineErrors =
        p.inlineErrors + (alone first).2.inlineErrors + (alone second).2.inlineErrors ∧
      both.2.calls = p.calls ++ (alone first).2.calls ++ (alone second).2.calls ∧
      both.2.Settled ∧
      ∀ entry, ((s.expandEntries crumbs (first ++ entry :: second)).run p).1 =
        (alone first).1 ++ (alone [entry]).1 ++ (alone second).1 := by
  intro alone both
  obtain ⟨v, hv, hboth⟩ := append_isolated hs crumbs first second p hp
  refine ⟨?_, ?_, ?_, ?_, ?_, fun entry => ?_⟩
  · simp only [both, hboth, alone]
  · simp [both, hboth, alone, Progress.add, Record.append, recordOf, Record.empty]
  · simp [both, hboth, alone, Progress.add, Record.append, recordOf, Record.empty, Nat.add_assoc]
  · simp [both, hboth, alone, Progress.add, Record.append, recordOf, Record.empty]
  · simp only [both, hboth]
    exact hv
  · -- cut the map on both sides of the entry
    obtain ⟨w, -, hall⟩ := append_isolated hs crumbs first (entry :: second) p hp
    obtain ⟨w', -, hrest⟩ := append_isolated hs crumbs [entry] second .start Progress.settled_start
    simp only [hall, alone, List.append_assoc]
    rw [← List.singleton_append (l := second), hrest]

/-- Three failing directives around an entry that is kept. -/
theorem expandEntries_append_failing :
    let s : Setting := ⟨.new .empty .default, [], .identity⟩
    let failing := [("js-b", Node.string "[...1]"), ("x-$c", .string "js: ["), ("js-d", .null)]
    let kept := [("keep", Node.bool true)]
    s.Memoryless ∧ Progress.start.Settled ∧
      ((s.expandEntries ["a"] (failing ++ kept)).run .start).1 =
        ((s.expandEntries ["a"] failing).run .start).1 ++
          ((s.expandEntries ["a"] kept).run .start).1 ∧
      ((s.expandEntries ["a"] failing).run .start).2.diagnostics.map Diagnostic.path =
        ["a.js-b", "a.x-$c", "a.js-d"] :=
  ⟨⟨_, rfl⟩, Progress.settled_start,
    (expandEntries_append ⟨_, rfl⟩ _ _ _ Progress.settled_start).1, by decide +kernel⟩

end SchemaWeave.Setting
