import SchemaWeave.Proofs.Completion.Directives

/-!
A type that a document registers is inline at exactly one place, its last definition, and a
reference at every other.
-/

namespace SchemaWeave

mutual

theorem Entries.breadcrumb_prefix {v : Visit} : ∀ crumbs entries,
    v ∈ Entries.hostDirectivesAt crumbs entries → crumbs <+: v.breadcrumb
  | _, [], h => by simp [Entries.hostDirectivesAt] at h
  | crumbs, (key, value) :: rest, h => by
      simp only [Entries.hostDirectivesAt, List.mem_append] at h
      rcases h with (hhere | hbelow) | hrest
      · split at hhere
        · obtain rfl := List.mem_singleton.1 hhere
          exact List.prefix_rfl
        · simp at hhere
      · split at hbelow
        · exact (List.prefix_append crumbs [key]).trans
            (Node.breadcrumb_prefix (crumbs ++ [key]) value hbelow)
        · simp at hbelow
      · exact Entries.breadcrumb_prefix crumbs rest hrest

theorem Node.breadcrumb_prefix {v : Visit} : ∀ crumbs node,
    v ∈ Node.hostDirectivesAt crumbs node → crumbs <+: v.breadcrumb
  | crumbs, .map entries, h => Entries.breadcrumb_prefix crumbs entries h
  | crumbs, .list items, h => Node.breadcrumb_prefix_items crumbs 0 items h
  | _, .null, h => by simp [Node.hostDirectivesAt] at h
  | _, .bool _, h => by simp [Node.hostDirectivesAt] at h
  | _, .number _, h => by simp [Node.hostDirectivesAt] at h
  | _, .string _, h => by simp [Node.hostDirectivesAt] at h

theorem Node.breadcrumb_prefix_items {v : Visit} : ∀ crumbs index items,
    v ∈ Node.hostDirectivesItems crumbs index items → crumbs <+: v.breadcrumb
  | _, _, [], h => by simp [Node.hostDirectivesItems] at h
  | crumbs, index, item :: rest, h => by
      simp only [Node.hostDirectivesItems, List.mem_append] at h
      rcases h with hitem | hrest
      · exact (List.prefix_append crumbs [Nat.repr index]).trans
          (Node.breadcrumb_prefix (crumbs ++ [Nat.repr index]) item hitem)
      · exact Node.breadcrumb_prefix_items crumbs (index + 1) rest hrest

end

namespace Entries

variable {es : Entries} {crumbs : List String} {v : Visit}

theorem mem_below_of_plain (hes : ∀ key ∈ es.keys, isHostDirective key = false)
    (hv : v ∈ Entries.hostDirectivesAt crumbs es) :
    ∃ e ∈ es, v ∈ Node.hostDirectivesAt (crumbs ++ [e.1]) e.2 := by
  induction es with
  | nil => simp [hostDirectivesAt] at hv
  | cons e rest ih =>
      obtain ⟨key, value⟩ := e
      have hkey := hes key List.mem_cons_self
      simp only [hostDirectivesAt, hkey, Bool.false_or, Bool.false_eq_true, if_false,
        List.nil_append, List.mem_append] at hv
      rcases hv with hbelow | hrest
      · split at hbelow
        · exact ⟨(key, value), List.mem_cons_self, hbelow⟩
        · simp at hbelow
      · obtain ⟨e, he, hbelow⟩ := ih (fun key h => hes key (List.mem_cons_of_mem _ h)) hrest
        exact ⟨e, List.mem_cons_of_mem _ he, hbelow⟩

/-- In a plain map, a directive whose breadcrumb goes on with a key stands below the one entry with
that key. -/
theorem mem_below_of_prefix (hes : es.PlainKeys) {key : String} {value : Node}
    (hmem : (key, value) ∈ es) (hv : v ∈ Entries.hostDirectivesAt crumbs es)
    (hkey : crumbs ++ [key] <+: v.breadcrumb) :
    v ∈ Node.hostDirectivesAt (crumbs ++ [key]) value := by
  obtain ⟨⟨k, w⟩, hw, hbelow⟩ := mem_below_of_plain (fun key h => (hes.2 key h).1) hv
  have hk := Node.breadcrumb_prefix (crumbs ++ [k]) w hbelow
  -- two beginnings of one breadcrumb that are equally long
  have hsame : crumbs ++ [k] = crumbs ++ [key] :=
    (List.prefix_of_prefix_length_le hk hkey (by simp)).eq_of_length (by simp)
  obtain rfl : k = key := by simpa using hsame
  rw [eq_of_mem hes.1 hmem hw]
  exact hbelow

end Entries

namespace Setting

variable {s : Setting} {es : Entries}

/-- What a node at the given place expands to. -/
def expanded (s : Setting) (crumbs : List String) (node : Node) : Node :=
  ((s.expandNode crumbs node).run .start).1

private theorem run_bind_pure {α β : Type} (a : Pass α) (f : α → β) :
    ((a >>= fun x => pure (f x)).run .start).1 = f (a.run .start).1 := rfl

/-- A plain map expands value by value. -/
theorem expandEntries_of_plain (hs : s.Memoryless)
    (hes : ∀ key ∈ es.keys, isHostDirective key = false ∧ expressionKey? key = none)
    (crumbs : List String) :
    ((s.expandEntries crumbs es).run .start).1 =
      es.map fun e => (e.1, s.expanded (crumbs ++ [e.1]) e.2) := by
  induction es with
  | nil => rfl
  | cons e rest ih =>
      obtain ⟨key, value⟩ := e
      obtain ⟨hhost, hname⟩ := hes key List.mem_cons_self
      have hentry : s.expandEntry crumbs (key, value) = do
          let node ← s.expandNode (crumbs ++ [key]) value
          return [(key, node)] := by
        simp [expandEntry, hhost, hname]
      have hnode := expandNode_isolates hs (crumbs ++ [key]) value
      have hrest := expandEntries_isolates hs crumbs rest
      rw [expandEntries_cons, hentry, bind_assoc]
      simp only [pure_bind]
      rw [(hnode.run_bind (hrest.bind fun _ => isolates_pure _)).1,
        run_bind_pure, ih fun key h => hes key (List.mem_cons_of_mem _ h)]
      rfl

theorem expanded_map (s : Setting) (crumbs : List String) (es : Entries) :
    s.expanded crumbs (.map es) = .map ((s.expandEntries crumbs es).run .start).1 := by
  rw [expanded, expandNode, run_bind_pure]

/-- Below a plain map the completed document holds what the value of the entry expands to. -/
theorem at?_expanded (hs : s.Memoryless) (hes : es.PlainKeys) {key : String} {value : Node}
    (hkey : es.get? key = some value) (crumbs path : List String) :
    (s.expanded crumbs (.map es)).mergeDuplicates.at? (key :: path) =
      (s.expanded (crumbs ++ [key]) value).mergeDuplicates.at? path := by
  have hnodup : (Entries.keys (es.map fun e => (e.1, s.expanded (crumbs ++ [e.1]) e.2))).Nodup := by
    rw [Entries.keys_map fun key => s.expanded (crumbs ++ [key])]
    exact hes.1
  have hget := Entries.get?_mergeDuplicates hnodup key
  rw [Entries.get?_map fun key => s.expanded (crumbs ++ [key]), hkey] at hget
  rw [expanded_map, expandEntries_of_plain hs hes.2, Node.mergeDuplicates]
  rw [Entries.mergeDuplicates] at hget
  rw [Node.at?_map_cons, hget]
  rfl

theorem definitionTarget?_eq_some {crumbs : List String} {target : String} :
    definitionTarget? crumbs = some target ↔
      ∃ name, crumbs = ["components", "schemas", name] ∧ target = schemaTarget name := by
  have hpattern : definitionPattern.dropLast = ["components", "schemas", "*"] := rfl
  have htext (name : String) :
      "#/" ++ "/".intercalate ["components", "schemas", name] = schemaTarget name := rfl
  simp only [definitionTarget?, hpattern]
  constructor
  · intro h
    split at h
    · rename_i hmatch
      obtain ⟨hlength, hkeys⟩ := hmatch
      rcases crumbs with _ | ⟨a, _ | ⟨b, _ | ⟨name, _ | ⟨c, rest⟩⟩⟩⟩ <;> simp at hlength
      have hab : "components" = a ∧ "schemas" = b := by simpa [keyMatches] using hkeys
      obtain ⟨rfl, rfl⟩ := hab
      exact ⟨name, rfl, (Option.some.inj h).symm⟩
    · cases h
  · rintro ⟨name, rfl, rfl⟩
    rw [if_pos (by simp [keyMatches]), htext]

/-- A registered type is defined at one place. -/
theorem isDefinedAt_iff {t : TypeRef} {key name : String} (ht : t.key = some key)
    (htarget : s.resolver.target? key = some (schemaTarget name)) (crumbs : List String) :
    s.isDefinedAt t crumbs = true ↔ crumbs = ["components", "schemas", name] := by
  rw [isDefinedAt, ht]
  cases h : definitionTarget? crumbs with
  | none =>
      constructor
      · intro hfalse
        cases hfalse
      · rintro rfl
        rw [definitionTarget?_eq_some.2 ⟨name, rfl, rfl⟩] at h
        cases h
  | some target =>
      obtain ⟨other, rfl, rfl⟩ := definitionTarget?_eq_some.1 h
      dsimp only
      rw [htarget, beq_iff_eq, Option.some.injEq, schemaTarget_inj]
      constructor
      · rintro rfl
        rfl
      · intro hcrumbs
        simpa using hcrumbs.symm

theorem typeSchema_of_target {r : Resolver} {t : TypeRef} {key target : String}
    (ht : t.key = some key) (htarget : r.target? key = some target) :
    r.typeSchema t false = pure (.ref target) := by
  have henter (shape : TypeRef → Resolving Schema) :
      r.enterType shape t false = pure (.ref target) := by
    simp [Resolver.enterType, ht, htarget]
  rw [Resolver.typeSchema]
  cases r.longestChain <;> rw [Resolver.typeSchemaWithin, henter]

end Setting

namespace Environment

/-- What a document makes of a type that it registers, given the last definition that names it. -/
structure DefinesOnce (e : Environment) (root : Entries) (key target name text : String)
    (t : TypeRef) : Prop where
  last : root.lastDefinition? e.graph key = some (name, text)
  named : e.graph.typeAt? text = some t ∧ t.key = some key
  target_eq : target = "#/components/schemas/" ++ name
  /-- At its definition the completed document holds the document of the type, schema inline. -/
  inline_there :
    (e.completeMap root).document.at? ["components", "schemas", name] =
      some (Node.map ((e.settingFor root).typeEntries t ["components", "schemas", name]
        (((e.settingFor root).resolver.typeSchema t true).run []).1.toNode)).mergeDuplicates
  /-- Every other directive that names the type expands to a document that refers to it there, and
  is given to the host as such. -/
  reference_elsewhere : ∀ v ∈ root.hostDirectives, ∀ text' t', v.value = .string text' →
    e.graph.typeAt? text' = some t' → t'.key = some key →
    (v.breadcrumb, v.key) ≠ (["components", "schemas", name], "x-$schema") →
    let document := (e.settingFor root).typeEntries t' v.breadcrumb
      (.map [("$ref", .string target)])
    (∀ p : Progress, p.Settled →
      (((e.settingFor root).expandHostDirective v.breadcrumb v.key v.value).run p).1 = document) ∧
      ⟨v.key, .map document, v.breadcrumb⟩ ∈ (e.completeMap root).calls

variable {e : Environment} {root : Entries}

theorem settingFor_graph (e : Environment) (root : Entries) :
    (e.settingFor root).resolver.graph = e.graph :=
  Resolver.registerAll_graph _ root

theorem exists_lastDefinition (hroot : root.LeadsPlainly) {key target : String}
    (hkey : (e.settingFor root).resolver.target? key = some target) :
    ∃ name text t, root.lastDefinition? e.graph key = some (name, text) ∧
      e.graph.typeAt? text = some t ∧ t.key = some key ∧ target = schemaTarget name := by
  rw [target?_settingFor e hroot, Option.map_eq_some_iff] at hkey
  obtain ⟨⟨name, text⟩, hlast, rfl⟩ := hkey
  have hnames := List.find?_some hlast
  rw [Graph.names, beq_iff_eq, Option.bind_eq_some_iff] at hnames
  obtain ⟨t, ht, hkey⟩ := hnames
  exact ⟨name, text, t, hlast, ht, hkey, rfl⟩

/-- The completed document at the place of a definition. -/
theorem at?_definition (hhost : e.host = .identity) (hroot : root.LeadsPlainly)
    {name text : String} (hmem : (name, text) ∈ root.definitions) {t : TypeRef}
    (ht : e.graph.typeAt? text = some t) :
    let s := e.settingFor root
    let crumbs := ["components", "schemas", name]
    (e.completeMap root).document.at? crumbs =
      some (Node.map (s.typeEntries t crumbs (s.schemaAt t crumbs).toNode)).mergeDuplicates := by
  intro s crumbs
  have hs : s.host = .identity := hhost
  obtain ⟨components, schemas, hc, hschemas, hplain, hplain', hentry⟩ := hroot.mem_definitions hmem
  have hdocument : (e.completeMap root).document = (s.expanded [] (.map root)).mergeDuplicates := by
    rw [Setting.expanded_map]
    rfl
  have hget := Entries.get?_of_mem hplain'.1 hentry
  rw [hdocument, Setting.at?_expanded ⟨_, hs⟩ hroot.top hc,
    Setting.at?_expanded ⟨_, hs⟩ hplain hschemas, Setting.at?_expanded ⟨_, hs⟩ hplain' hget]
  have ht' : s.resolver.graph.typeAt? text = some t := by rw [settingFor_graph, ht]
  obtain ⟨w, hw, -⟩ := Setting.typeDirective_isolated hs crumbs "x-$schema" text ht'
  -- the map of a definition expands to what its one directive does
  have hhere : s.expandEntries crumbs [("x-$schema", .string text)] =
      s.expandHostDirective crumbs "x-$schema" (.string text) := by
    have hkey : isHostDirective "x-$schema" = true := rfl
    simp [Setting.expandEntries, hkey]
  rw [← hhere] at hw
  rw [Setting.expanded_map, Node.at?]
  exact congrArg (fun es => some (Node.map es).mergeDuplicates) hw.run_start.1

/-- In a plain document the map of a definition holds one directive. -/
theorem eq_of_breadcrumb (hroot : root.LeadsPlainly) {name text : String}
    (hmem : (name, text) ∈ root.definitions) {v : Visit} (hv : v ∈ root.hostDirectives)
    (hcrumbs : v.breadcrumb = ["components", "schemas", name]) :
    v = ⟨["components", "schemas", name], "x-$schema", .string text⟩ := by
  obtain ⟨components, schemas, hc, hschemas, hplain, hplain', hentry⟩ := hroot.mem_definitions hmem
  have hin := Entries.mem_below_of_prefix hroot.top (Entries.mem_of_get? hc) hv
    (by simp [hcrumbs])
  have hin' := Entries.mem_below_of_prefix hplain (Entries.mem_of_get? hschemas) hin
    (by simp [hcrumbs])
  have hin'' := Entries.mem_below_of_prefix hplain' hentry hin' (by simp [hcrumbs])
  have hhost : isHostDirective "x-$schema" = true := rfl
  simpa [Node.hostDirectivesAt, Entries.hostDirectivesAt, hhost] using hin''

/-- **A registered type is inline at one definition and a reference everywhere else**: of the
definitions that name it the last holds its schema, and every other directive that names it, before
or after, in a definition or not, refers to that one. The document of a function has no schema. -/
theorem completeMap_definesOnce (e : Environment) (hhost : e.host = .identity) {root : Entries}
    (hroot : root.LeadsPlainly) {key target : String}
    (hkey : (e.settingFor root).resolver.target? key = some target) :
    ∃ name text t, e.DefinesOnce root key target name text t := by
  have hs : (e.settingFor root).host = .identity := hhost
  obtain ⟨name, text, t, hlast, ht, htkey, rfl⟩ := exists_lastDefinition hroot hkey
  have hmem : (name, text) ∈ root.definitions :=
    List.mem_reverse.1 (List.mem_of_find?_eq_some hlast)
  refine ⟨name, text, t, hlast, ⟨ht, htkey⟩, rfl, ?_, ?_⟩
  · have hdefined := (Setting.isDefinedAt_iff htkey hkey ["components", "schemas", name]).2 rfl
    rw [at?_definition hhost hroot hmem ht, Setting.schemaAt, hdefined]
  · intro v hv text' t' hvalue ht' htkey' hother
    -- a directive at the place of the definition would be the definition itself
    have hdefined : (e.settingFor root).isDefinedAt t' v.breadcrumb = false := by
      rw [Bool.eq_false_iff, ne_eq, Setting.isDefinedAt_iff htkey' hkey]
      intro hcrumbs
      rw [eq_of_breadcrumb hroot hmem hv hcrumbs] at hother
      exact hother rfl
    have hschema : (e.settingFor root).schemaAt t' v.breadcrumb = .ref (schemaTarget name) := by
      rw [Setting.schemaAt, hdefined, Setting.typeSchema_of_target htkey' hkey]
      rfl
    have hgraph : (e.settingFor root).resolver.graph.typeAt? text' = some t' := by
      rw [settingFor_graph, ht']
    obtain ⟨w, hw, -⟩ :=
      Setting.typeDirective_isolated hs v.breadcrumb v.key text' hgraph
    have hcall := Setting.mem_calls_expandEntries hs hvalue hgraph [] root hv
    rw [Setting.callFor, hschema] at hcall
    rw [hschema] at hw
    refine ⟨fun p hp => ?_, hcall⟩
    obtain ⟨visits, -, hrun⟩ := hw p hp
    rw [hvalue, hrun]
    rfl

/-- Two definitions of one type, with a use before them. -/
theorem completeMap_definesOnce_twice :
    let pet : Declaration := ⟨"zoo.Pet", "Pet", "zoo", .empty, .expr (.scalar .string), []⟩
    let e : Environment :=
      ⟨{ Graph.empty with packages := ["zoo"], types := [pet] }, .identity, .default, []⟩
    let definition := Node.map [("x-$schema", .string "zoo.Pet")]
    let root : Entries := [("first", .list [.map [("x-$use", .string "zoo.Pet")]]),
      ("components", .map [("schemas", .map [("Old", definition), ("New", definition)])])]
    e.host = .identity ∧ root.LeadsPlainly ∧
      (e.settingFor root).resolver.target? "zoo.Pet" = some "#/components/schemas/New" ∧
      ∃ name text t, e.DefinesOnce root "zoo.Pet" "#/components/schemas/New" name text t := by
  intro pet e definition root
  have hroot : root.LeadsPlainly := .of_maps (by decide +kernel) rfl (by decide +kernel) rfl
    (by decide +kernel) (by simp [definition])
  have hkey : (e.settingFor root).resolver.target? "zoo.Pet" =
      some "#/components/schemas/New" := by decide +kernel
  exact ⟨rfl, hroot, hkey, completeMap_definesOnce e rfl hroot hkey⟩

/-- A function that a document defines is registered, but its document has no schema there. -/
theorem completeMap_function_without_schema :
    let handler : Declaration :=
      ⟨"app/model.Handler", "Handler", "app/model", .empty, .expr .func, []⟩
    let e : Environment :=
      ⟨{ Graph.empty with packages := ["app/model"], types := [handler] }, .identity, .default, []⟩
    let root : Entries := [("components", .map [("schemas",
      .map [("H", .map [("x-$schema", .string "app/model.Handler")])])])]
    root.LeadsPlainly ∧ e.graph.methods = [] ∧
      (e.settingFor root).resolver.target? "app/model.Handler" =
        some "#/components/schemas/H" ∧
      root.lastDefinition? e.graph "app/model.Handler" = some ("H", "app/model.Handler") ∧
      (e.completeMap root).document.at? ["components", "schemas", "H", "schema"] ≠
        some (((e.settingFor root).resolver.typeSchema handler.ref true).run []).1.toNode := by
  intro handler e root
  have hroot : root.LeadsPlainly := .of_maps (by decide +kernel) rfl (by decide +kernel) rfl
    (by decide +kernel) (by simp)
  have hnone : ((e.completeMap root).document.at?
      ["components", "schemas", "H", "schema"]).isNone = true := by decide +kernel
  refine ⟨hroot, rfl, by decide +kernel, by decide +kernel, ?_⟩
  rw [Option.isNone_iff_eq_none.1 hnone]
  exact (Option.some_ne_none _).symm

end Environment

end SchemaWeave
