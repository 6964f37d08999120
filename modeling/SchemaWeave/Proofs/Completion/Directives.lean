import SchemaWeave.Proofs.Completion.Expansion
import SchemaWeave.Proofs.Completion.Registration

/-!
The host directives that an expansion comes to, and what becomes of those that name a type. A map
with plain keys alone expands value by value.
-/

namespace SchemaWeave

mutual

/-- The host directives that the expansion of a map at the given place comes to, those inside the
value of another one included; what an expression directive holds is not expanded. -/
def Entries.hostDirectivesAt (crumbs : Breadcrumb) : List (String × Node) → List Visit
  | [] => []
  | (key, value) :: rest =>
    (if isHostDirective key then [⟨crumbs, key, value⟩] else []) ++
      (if isHostDirective key || (expressionKey? key).isNone then
        Node.hostDirectivesAt (crumbs ++ [key]) value
      else []) ++
      Entries.hostDirectivesAt crumbs rest

def Node.hostDirectivesAt (crumbs : Breadcrumb) : Node → List Visit
  | .map es => Entries.hostDirectivesAt crumbs es
  | .list items => Node.hostDirectivesItems crumbs 0 items
  | .null => []
  | .bool _ => []
  | .number _ => []
  | .string _ => []

/-- The host directives inside list items, the first of which has the given index. -/
def Node.hostDirectivesItems (crumbs : Breadcrumb) (index : Nat) : List Node → List Visit
  | [] => []
  | item :: rest =>
    Node.hostDirectivesAt (crumbs ++ [Nat.repr index]) item ++
      Node.hostDirectivesItems crumbs (index + 1) rest

end

/-- The host directives that the expansion of a document comes to. -/
def Entries.hostDirectives (root : Entries) : List Visit := Entries.hostDirectivesAt [] root

variable {α β : Type}

theorem Isolates.run_bind {a : Pass α} {b : α → Pass β} (ha : Isolates a)
    (hb : Isolates (b (a.run .start).1)) :
    ((a >>= b).run .start).1 = ((b (a.run .start).1).run .start).1 ∧
      recordOf (a >>= b) = (recordOf a).append (recordOf (b (a.run .start).1)) :=
  (ha.isolated.bind hb.isolated).run_start

namespace Setting

variable {s : Setting}

/-- The entries of the document of a declaration at a place, with the node of its schema. -/
def typeEntries (s : Setting) (t : TypeRef) (crumbs : List String) (schema : Node) : Entries :=
  [("doc", .string t.doc.full), ("summary", .string t.doc.summary),
    ("description", .string t.doc.description),
    ("meta", .map ((s.expandMetadata t.file (crumbs ++ ["meta"]) t.doc.metadata).run .start).1)] ++
    (if t.isFunc then [] else [("schema", schema)]) ++ [("x-type-doc", .bool true)]

/-- The schema of a declaration at a place of the document. -/
def schemaAt (s : Setting) (t : TypeRef) (crumbs : List String) : Schema :=
  ((s.resolver.typeSchema t (s.isDefinedAt t crumbs)).run []).1

theorem typeDocument_isolated (s : Setting) (t : TypeRef) (crumbs : List String) :
    ∃ w, Isolated (s.typeDocument t crumbs)
      (.map (s.typeEntries t crumbs (s.schemaAt t crumbs).toNode)) w := by
  have hmetadata :=
    (expandMetadata_isolates s t.file (crumbs ++ ["meta"]) t.doc.metadata).isolated
  simp only [typeDocument, typeEntries]
  cases t.isFunc with
  | true => exact ⟨_, hmetadata.bind (isolated_pure _)⟩
  | false =>
      have hschema := (resolve_isolates
        (s.resolver.typeSchema_steady t (s.isDefinedAt t crumbs))).isolated
      exact ⟨_, hmetadata.bind (hschema.bind ((render_isolated _).bind (isolated_pure _)))⟩

theorem typeDirective_isolated (hs : s.host = .identity) (crumbs : List String) (key text : String)
    {t : TypeRef} (ht : s.resolver.graph.typeAt? text = some t) :
    ∃ w, Isolated (s.expandHostDirective crumbs key (.string text))
        (s.typeEntries t crumbs (s.schemaAt t crumbs).toNode) w ∧
      (⟨key, .map (s.typeEntries t crumbs (s.schemaAt t crumbs).toNode), crumbs⟩ : HostCall) ∈
        w.calls := by
  obtain ⟨w, hw⟩ := typeDocument_isolated s t crumbs
  have hdirective : s.directiveText text crumbs = do return .ok (← s.typeDocument t crumbs) := by
    unfold Graph.typeAt? at ht
    unfold directiveText
    dsimp only at ht ⊢
    split at ht
    · rename_i howns
      rw [if_pos howns, ht]
    · cases ht
  rw [expandHostDirective, hdirective]
  refine ⟨_, (hw.bind (isolated_pure _)).bind ((askHost_isolated hs _).bind (isolated_pure _)), ?_⟩
  simp [Record.append]

/-- What the host is asked about a directive that names the given declaration. -/
def callFor (s : Setting) (v : Visit) (t : TypeRef) : HostCall :=
  ⟨v.key, .map (s.typeEntries t v.breadcrumb (s.schemaAt t v.breadcrumb).toNode), v.breadcrumb⟩

theorem mem_calls_bind {a : Pass α} {b : α → Pass β} {call : HostCall} (ha : Isolates a)
    (hb : ∀ x, Isolates (b x))
    (h : call ∈ (recordOf a).calls ∨ ∀ x, call ∈ (recordOf (b x)).calls) :
    call ∈ (recordOf (a >>= b)).calls := by
  rw [(ha.run_bind (hb _)).2]
  rcases h with h | h
  · exact List.mem_append_left _ h
  · exact List.mem_append_right _ (h _)

section Calls

variable {v : Visit} {text : String} {t : TypeRef}

mutual

/-- The host is asked about every directive that names a declaration. -/
theorem mem_calls_expandEntries (hs : s.host = .identity) (hv : v.value = .string text)
    (ht : s.resolver.graph.typeAt? text = some t) : ∀ crumbs entries,
    v ∈ Entries.hostDirectivesAt crumbs entries →
      s.callFor v t ∈ (recordOf (s.expandEntries crumbs entries)).calls
  | _, [], h => by simp [Entries.hostDirectivesAt] at h
  | crumbs, (key, value) :: rest, h => by
      have hm : s.Memoryless := ⟨_, hs⟩
      have hothers := fun here : Entries => (expandEntries_isolates hm crumbs rest).bind
        fun others => isolates_pure (here ++ others)
      rw [expandEntries_cons]
      rw [Entries.hostDirectivesAt, List.mem_append] at h
      rcases h with hentry | hrest
      · refine mem_calls_bind (expandEntry_isolates hm crumbs (key, value)) hothers (.inl ?_)
        rw [expandEntry]
        dsimp only
        -- only a plain key and a host directive are expanded further
        cases hhost : isHostDirective key with
        | true =>
            rw [if_pos rfl]
            refine mem_calls_expandHostDirective hs hv ht crumbs key value ?_
            simpa [hhost] using hentry
        | false =>
            cases hname : expressionKey? key with
            | some name => simp [hhost, hname] at hentry
            | none =>
                refine mem_calls_bind (expandNode_isolates hm _ value) (fun _ => isolates_pure _)
                  (.inl (mem_calls_expandNode hs hv ht (crumbs ++ [key]) value ?_))
                simpa [hhost, hname] using hentry
      · exact mem_calls_bind (expandEntry_isolates hm crumbs (key, value)) hothers
          (.inr fun here => mem_calls_bind (expandEntries_isolates hm crumbs rest)
            (fun _ => isolates_pure _)
            (.inl (mem_calls_expandEntries hs hv ht crumbs rest hrest)))

theorem mem_calls_expandHostDirective (hs : s.host = .identity) (hv : v.value = .string text)
    (ht : s.resolver.graph.typeAt? text = some t) : ∀ crumbs key value,
    v = ⟨crumbs, key, value⟩ ∨ v ∈ Node.hostDirectivesAt (crumbs ++ [key]) value →
      s.callFor v t ∈ (recordOf (s.expandHostDirective crumbs key value)).calls
  | crumbs, key, .string text', h => by
      have hvisit : v = ⟨crumbs, key, .string text'⟩ := by simpa [Node.hostDirectivesAt] using h
      subst hvisit
      cases hv
      obtain ⟨w, hw, hcall⟩ := typeDirective_isolated hs crumbs key text ht
      rw [hw.run_start.2]
      exact hcall
  | crumbs, key, .map entries, h => by
      -- a directive that holds a map names no declaration, but one inside the map may
      have hbelow : v ∈ Entries.hostDirectivesAt (crumbs ++ [key]) entries := by
        rcases h with rfl | h
        · cases hv
        · exact h
      exact mem_calls_bind (expandEntries_isolates ⟨_, hs⟩ _ entries)
        (fun _ => hostReply_isolates ⟨_, hs⟩ crumbs key _)
        (.inl (mem_calls_expandEntries hs hv ht (crumbs ++ [key]) entries hbelow))
  | crumbs, key, .list items, h => by
      have hbelow : v ∈ Node.hostDirectivesItems (crumbs ++ [key]) 0 items := by
        rcases h with rfl | h
        · cases hv
        · exact h
      exact mem_calls_bind (expandItems_isolates ⟨_, hs⟩ _ 0 items)
        (fun _ => hostReply_isolates ⟨_, hs⟩ crumbs key _)
        (.inl (mem_calls_expandItems hs hv ht (crumbs ++ [key]) 0 items hbelow))
  | _, _, .null, h => by
      obtain rfl := h.resolve_right (by simp [Node.hostDirectivesAt])
      cases hv
  | _, _, .bool _, h => by
      obtain rfl := h.resolve_right (by simp [Node.hostDirectivesAt])
      cases hv
  | _, _, .number _, h => by
      obtain rfl := h.resolve_right (by simp [Node.hostDirectivesAt])
      cases hv

theorem mem_calls_expandNode (hs : s.host = .identity) (hv : v.value = .string text)
    (ht : s.resolver.graph.typeAt? text = some t) : ∀ crumbs node,
    v ∈ Node.hostDirectivesAt crumbs node →
      s.callFor v t ∈ (recordOf (s.expandNode crumbs node)).calls
  | crumbs, .map entries, h => mem_calls_bind (expandEntries_isolates ⟨_, hs⟩ crumbs entries)
      (fun _ => isolates_pure _) (.inl (mem_calls_expandEntries hs hv ht crumbs entries h))
  | crumbs, .list items, h => mem_calls_bind (expandItems_isolates ⟨_, hs⟩ crumbs 0 items)
      (fun _ => isolates_pure _) (.inl (mem_calls_expandItems hs hv ht crumbs 0 items h))
  | _, .null, h => by simp [Node.hostDirectivesAt] at h
  | _, .bool _, h => by simp [Node.hostDirectivesAt] at h
  | _, .number _, h => by simp [Node.hostDirectivesAt] at h
  | _, .string _, h => by simp [Node.hostDirectivesAt] at h

theorem mem_calls_expandItems (hs : s.host = .identity) (hv : v.value = .string text)
    (ht : s.resolver.graph.typeAt? text = some t) : ∀ crumbs index items,
    v ∈ Node.hostDirectivesItems crumbs index items →
      s.callFor v t ∈ (recordOf (s.expandItems crumbs index items)).calls
  | _, _, [], h => by simp [Node.hostDirectivesItems] at h
  | crumbs, index, item :: rest, h => by
      have hm : s.Memoryless := ⟨_, hs⟩
      have hothers := fun node : Node => ((expandItems_isolates hm crumbs (index + 1) rest).bind
        fun others => isolates_pure (node :: others))
      rw [expandItems]
      simp only [Node.hostDirectivesItems, List.mem_append] at h
      rcases h with hitem | hrest
      · exact mem_calls_bind (expandNode_isolates hm _ item) hothers
          (.inl (mem_calls_expandNode hs hv ht _ item hitem))
      · exact mem_calls_bind (expandNode_isolates hm _ item) hothers
          (.inr fun node => mem_calls_bind (expandItems_isolates hm crumbs (index + 1) rest)
            (fun _ => isolates_pure _)
            (.inl (mem_calls_expandItems hs hv ht crumbs (index + 1) rest hrest)))

end

end Calls

end Setting

end SchemaWeave
