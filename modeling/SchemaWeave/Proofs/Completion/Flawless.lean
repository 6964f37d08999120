import SchemaWeave.Proofs.Completion.Definitions
import SchemaWeave.Proofs.Completion.Strict
import SchemaWeave.Proofs.Document.Visits
import SchemaWeave.Proofs.Resolving.Values

/-!
A completed document without errors has no hard error in its schemas, not even in the list of a
composition's properties, where none is looked for. There an error may come in from the definition
behind a reference. But a registered type is defined by a directive, which is expanded unless it
stands inside an expression directive, and that one fails then (`Entries.mem_directivesAt`). So the
inline schema of every registered type was put into the document (`Environment.sound_of_target`),
and nothing was overlooked in any other (`Environment.overtTypes`). A method with the key of a type
would be registered in the place of the type, which then need not be rendered anywhere.

Two things leave no trace. A path that belongs to the graph but leads nowhere is answered with a
text, which is neither a diagnostic nor a schema. And a schema that was turned into data, for an
example or an argument of a modifier, is no schema any more when errors are counted.
-/

namespace SchemaWeave

/-! ### Directives that are expanded -/

/-- A directive that is none of a host and holds no text: an expression directive that fails. -/
def Visit.IsMisplaced (v : Visit) : Prop :=
  isHostDirective v.key = false ∧ v.value.asString? = none

section Directives

variable {v : Visit}

mutual

/-- The expansion comes to every host directive, or else to an expression directive that holds no
text. -/
theorem Entries.mem_directivesAt (hkey : isHostDirective v.key = true) : ∀ crumbs entries,
    v ∈ Entries.visitsAt crumbs entries →
      v ∈ Entries.directivesAt crumbs entries ∨
        ∃ w ∈ Entries.directivesAt crumbs entries, w.IsMisplaced
  | _, [], h => by simp [Entries.visitsAt] at h
  | crumbs, (key, value) :: rest, h => by
      simp only [Entries.visitsAt, List.cons_append, List.mem_cons, List.mem_append] at h
      simp only [Entries.directivesAt, List.mem_append]
      rcases h with rfl | hbelow | hrest
      · rw [if_pos hkey]
        exact .inl (.inl List.mem_cons_self)
      · have hin := Node.mem_directivesAt hkey (crumbs ++ [key]) value hbelow
        cases hhost : isHostDirective key with
        | true => grind
        | false =>
            cases hname : expressionKey? key with
            | none => grind
            | some name =>
                refine .inr ⟨⟨crumbs, key, value⟩, by simp, hhost, ?_⟩
                cases value with
                | string text => simp [Node.visitsAt] at hbelow
                | null | bool | number | list | map => rfl
      · have hin := Entries.mem_directivesAt hkey crumbs rest hrest
        grind

theorem Node.mem_directivesAt (hkey : isHostDirective v.key = true) : ∀ crumbs node,
    v ∈ Node.visitsAt crumbs node →
      v ∈ Node.directivesAt crumbs node ∨ ∃ w ∈ Node.directivesAt crumbs node, w.IsMisplaced
  | crumbs, .map entries, h => Entries.mem_directivesAt hkey crumbs entries h
  | crumbs, .list items, h => Node.mem_directivesItems hkey crumbs 0 items h
  | _, .null, h => by simp [Node.visitsAt] at h
  | _, .bool _, h => by simp [Node.visitsAt] at h
  | _, .number _, h => by simp [Node.visitsAt] at h
  | _, .string _, h => by simp [Node.visitsAt] at h

theorem Node.mem_directivesItems (hkey : isHostDirective v.key = true) : ∀ crumbs index items,
    v ∈ Node.visitsItems crumbs index items →
      v ∈ Node.directivesItems crumbs index items ∨
        ∃ w ∈ Node.directivesItems crumbs index items, w.IsMisplaced
  | _, _, [], h => by simp [Node.visitsItems] at h
  | crumbs, index, item :: rest, h => by
      simp only [Node.visitsItems, List.mem_append] at h
      simp only [Node.directivesItems, List.mem_append]
      rcases h with hitem | hrest
      · have hin := Node.mem_directivesAt hkey (crumbs ++ [Nat.repr index]) item hitem
        grind
      · have hin := Node.mem_directivesItems hkey crumbs (index + 1) rest hrest
        grind

end

end Directives

/-! ### Registered types -/

/-- The value of a definition is the path of the type with a key, for which the place of the
definition is the target. -/
def Graph.Registers (g : Graph) (key target : String) (d : Breadcrumb × Node) : Prop :=
  ∃ text t, d.2 = .string text ∧ g.typeAt? text = some t ∧ t.key = some key ∧
    target = "#/" ++ "/".intercalate d.1

namespace Resolver

variable {r : Resolver} {key target : String}

theorem target?_registerDefinition {d : Breadcrumb × Node}
    (h : (r.registerDefinition d).target? key = some target) :
    r.target? key = some target ∨ r.graph.Registers key target d := by
  obtain ⟨crumbs, value⟩ := d
  cases value with
  | string text =>
      rw [registerDefinition_string] at h
      cases hnamed : (r.graph.typeAt? text).bind TypeRef.key with
      | none =>
          rw [hnamed] at h
          exact .inl h
      | some k =>
          rw [hnamed] at h
          have htarget : Dictionary.get? key (Dictionary.insert k ("#/" ++ "/".intercalate crumbs)
            r.registry) = some target := h
          rw [Dictionary.get?_insert] at htarget
          split at htarget
          next heq =>
            obtain ⟨t, ht, hkey⟩ := Option.bind_eq_some_iff.1 hnamed
            exact .inr ⟨text, t, rfl, ht, heq ▸ hkey, (Option.some.inj htarget).symm⟩
          next => exact .inl htarget
  | null | bool | number | list | map => exact .inl h

theorem target?_foldl_registerDefinition (ds : List (Breadcrumb × Node)) : ∀ {r : Resolver},
    (ds.foldl registerDefinition r).target? key = some target →
      r.target? key = some target ∨ ∃ d ∈ ds, r.graph.Registers key target d := by
  induction ds with
  | nil => exact fun h => .inl h
  | cons d ds ih =>
      intro r h
      rcases ih h with hhere | ⟨d', hd', hregisters⟩
      · exact (target?_registerDefinition hhere).imp_right fun h => ⟨d, List.mem_cons_self, h⟩
      · rw [registerDefinition_graph] at hregisters
        exact .inr ⟨d', List.mem_cons_of_mem _ hd', hregisters⟩

end Resolver

theorem Entries.mem_select {pattern : List String} {root : Entries} {d : Breadcrumb × Node}
    (h : d ∈ root.select pattern) :
    ∃ v ∈ root.visits, v.Fits pattern ∧ d = (v.breadcrumb, v.value) := by
  rw [Entries.select_eq] at h
  obtain ⟨⟨trail, v⟩, hmem, rfl⟩ := List.mem_map.1 h
  obtain ⟨hlisted, hpicks⟩ := List.mem_filter.1 hmem
  refine ⟨v, ?_, (Node.picks_iff.1 hpicks).2, rfl⟩
  rw [Entries.visits_eq]
  exact List.mem_map.2 ⟨_, hlisted, rfl⟩

theorem Visit.fits_definitionPattern {v : Visit} (h : v.Fits definitionPattern) :
    v.key = "x-$schema" ∧ ∃ name, v.breadcrumb = ["components", "schemas", name] := by
  obtain ⟨crumbs, key, value⟩ := v
  have hlength := h.length_eq
  unfold Fits address definitionPattern at h
  rcases crumbs with _ | ⟨a, _ | ⟨b, _ | ⟨name, _ | ⟨c, rest⟩⟩⟩⟩ <;>
    simp [definitionPattern, address] at hlength
  have hfits : "components" = a ∧ "schemas" = b ∧ "x-$schema" = key := by simpa using h
  obtain ⟨rfl, rfl, rfl⟩ := hfits
  exact ⟨rfl, name, rfl⟩

/-- No method has the key of a type. -/
def Graph.MethodsApart (g : Graph) : Prop := ∀ m ∈ g.methods, ∀ d ∈ g.types, m.key ≠ d.key

instance (g : Graph) : Decidable g.MethodsApart := inferInstanceAs (Decidable (∀ _ ∈ _, _))

/-- What a path leads to is found under its key, or is a method. -/
theorem Graph.isFound_or_method {g : Graph} {text : String} {t : TypeRef}
    (h : g.typeAt? text = some t) : g.IsFound t ∨ ∃ m ∈ g.methods, t = m.ref := by
  unfold typeAt? resolvePath at h
  dsimp only at h
  split at h
  · split at h
    · cases h
    · split at h
      · obtain ⟨m, hm, rfl⟩ := Option.map_eq_some_iff.1 h
        exact .inr ⟨m, List.mem_of_find?_eq_some hm, rfl⟩
      · exact .inl (isFound_lookup h)
  · cases h

/-- Unless a method has the key of a type, a path with the key of a type leads to the type. -/
theorem Graph.MethodsApart.eq_of_key {g : Graph} (h : g.MethodsApart) {text key : String}
    {t u : TypeRef} (ht : g.typeAt? text = some t) (htkey : t.key = some key) (hu : g.IsFound u)
    (hukey : u.key = some key) : t = u := by
  rcases Graph.isFound_or_method ht with hfound | ⟨m, hm, rfl⟩
  · exact hfound.eq_of_key hu htkey hukey
  · obtain ⟨d, hd, -⟩ := Option.map_eq_some_iff.1 (hu key hukey)
    have hdkey : d.key = key := by simpa using List.find?_some hd
    have hsame : m.key = d.key := (Option.some.inj htkey).trans hdkey.symm
    exact absurd hsame (h m hm d (List.mem_of_find?_eq_some hd))

/-- The schema of a function has no hard error. -/
theorem Resolver.sound_of_isFunc {r : Resolver} {t : TypeRef} (h : t.isFunc = true)
    (chain : List String) (inline : Bool) : (r.chainSchema chain t inline).Sound := by
  rw [chainSchema_eq]
  rcases enterOnChain_cases r (r.shapeOnChain r.chainSchema) chain t inline with
    ⟨-, target, -, heq⟩ | ⟨-, heq⟩ | ⟨message, heq⟩ <;> rw [heq]
  · exact Schema.sound_tracks.ref target
  · unfold TypeRef.isFunc at h
    split at h
    next hshape =>
      simp only [shapeOnChain, shapeSchema, hshape]
      exact Schema.sound_tracks.softError _
    next => cases h
  · exact Schema.sound_tracks.softError message

namespace Setting

variable {s : Setting} {P : Schema → Prop}

theorem not_expands_of_misplaced {v : Visit} (h : v.IsMisplaced) : ¬ s.Expands P v := by
  obtain ⟨crumbs, key, value⟩ := v
  obtain ⟨hkey, hvalue⟩ := h
  simp only [Expands, hkey, Bool.false_eq_true, if_false]
  rintro ⟨code, rfl, -⟩
  cases hvalue

theorem Expands.directiveText {crumbs : Breadcrumb} {key text : String}
    (hkey : isHostDirective key = true) (h : s.Expands P ⟨crumbs, key, .string text⟩) :
    s.DirectiveTextExpands P text crumbs := by
  simp only [Expands, hkey, if_true] at h
  exact h text rfl

theorem schemaAt_of_defined {t : TypeRef} {crumbs : Breadcrumb}
    (h : s.isDefinedAt t crumbs = true) :
    s.schemaAt t crumbs = s.resolver.chainSchema [] t true := by
  rw [schemaAt, h]
  exact (s.resolver.typeSchema_follows t true [] [] .nil).1

end Setting

namespace Environment

variable {e : Environment} {root : Entries}

/-- A type that is registered is the one that some definition names. -/
theorem exists_definition {key target : String}
    (h : (e.settingFor root).resolver.target? key = some target) :
    ∃ name text t, ⟨["components", "schemas", name], "x-$schema", .string text⟩ ∈ root.visits ∧
      e.graph.typeAt? text = some t ∧ t.key = some key ∧ target = schemaTarget name := by
  rcases Resolver.target?_foldl_registerDefinition _ h with hnone | ⟨d, hd, hregisters⟩
  · cases hnone
  · obtain ⟨⟨crumbs, _, value⟩, hv, hfits, rfl⟩ := Entries.mem_select hd
    obtain ⟨rfl, name, rfl⟩ := Visit.fits_definitionPattern hfits
    obtain ⟨text, t, rfl, ht, hkey, rfl⟩ := hregisters
    exact ⟨name, text, t, hv, ht, hkey, rfl⟩

/-- Where every directive was expanded, the inline schema of a registered type has no hard error
that is looked for: it was put into the document. -/
theorem sound_of_target (hapart : e.graph.MethodsApart)
    (h : ∀ v ∈ root.directives, (e.settingFor root).Expands Schema.Sound v) {u : TypeRef}
    (hu : (e.settingFor root).resolver.graph.IsFound u)
    (hregistered : (e.settingFor root).resolver.targetOf? u ≠ none) :
    ((e.settingFor root).resolver.chainSchema [] u true).Sound := by
  obtain ⟨target, htarget⟩ := Option.ne_none_iff_exists'.1 hregistered
  obtain ⟨key, hkey, hfound⟩ := Option.bind_eq_some_iff.1 htarget
  obtain ⟨name, text, t, hv, ht, htkey, rfl⟩ := exists_definition hfound
  have hhost : isHostDirective "x-$schema" = true := rfl
  have hdirective := (Entries.mem_directivesAt hhost [] root hv).resolve_right
    fun ⟨w, hw, hmisplaced⟩ => Setting.not_expands_of_misplaced hmisplaced (h w hw)
  have hexpands := (h _ hdirective).directiveText hhost
  rw [settingFor_graph] at hu
  obtain rfl := hapart.eq_of_key ht htkey hu hkey
  rw [← settingFor_graph e root] at ht
  cases hfunc : t.isFunc with
  | true => exact Resolver.sound_of_isFunc hfunc [] true
  | false =>
      have hdefined := (Setting.isDefinedAt_iff htkey hfound _).2 rfl
      rw [← Setting.schemaAt_of_defined hdefined]
      exact (hexpands.document t ht).schema hfunc

/-- Where every directive was expanded, nothing is overlooked in the schemas of types. -/
theorem overtTypes (hapart : e.graph.MethodsApart)
    (h : ∀ v ∈ root.directives, (e.settingFor root).Expands Schema.Sound v) :
    (e.settingFor root).resolver.OvertTypes :=
  Resolver.chainSchema_overt (fun _ => sound_of_target hapart h) []

end Environment

/-! ### The schemas of values -/

namespace Setting

variable {s : Setting}

theorem overt_schemaFor (hr : s.resolver.OvertTypes) {v : Value} (h : v.Overt) :
    (s.schemaFor v).Overt :=
  (Resolver.valueSchema_gives hr false v h [] .nil).1

mutual

/-- In the schemas in the document form of a value nothing is overlooked, if nothing is in those
that the value holds. -/
theorem overt_leafSchemas (hr : s.resolver.OvertTypes) : ∀ v : Value, v.Overt →
    ∀ schema ∈ s.leafSchemas v, schema.Overt
  | .map entries, h => overt_leafSchemasOfEntries hr entries (Value.overt_map.1 h)
  | .list items, h => overt_leafSchemasOfItems hr items (Value.overt_list.1 h)
  | .schema _, h => by simpa [leafSchemas] using Value.overt_schema.1 h
  | .null, _ => List.forall_mem_nil _
  | .bool _, _ => List.forall_mem_nil _
  | .number _, _ => List.forall_mem_nil _
  | .string _, _ => List.forall_mem_nil _
  | .type _, h => by simpa [leafSchemas] using overt_schemaFor hr h
  | .package .., h => by simpa [leafSchemas] using overt_schemaFor hr h
  | .function _, h => by simpa [leafSchemas] using overt_schemaFor hr h
  | .missing _, h => by simpa [leafSchemas] using overt_schemaFor hr h

theorem overt_leafSchemasOfItems (hr : s.resolver.OvertTypes) : ∀ items : List Value,
    (∀ v ∈ items, v.Overt) → ∀ schema ∈ s.leafSchemasOfItems items, schema.Overt
  | [], _ => List.forall_mem_nil _
  | item :: rest, h => by
      obtain ⟨hitem, hrest⟩ := List.forall_mem_cons.1 h
      exact List.forall_mem_append.2
        ⟨overt_leafSchemas hr item hitem, overt_leafSchemasOfItems hr rest hrest⟩

theorem overt_leafSchemasOfEntries (hr : s.resolver.OvertTypes) :
    ∀ entries : List (String × Value), (∀ e ∈ entries, e.2.Overt) →
      ∀ schema ∈ s.leafSchemasOfEntries entries, schema.Overt
  | [], _ => List.forall_mem_nil _
  | (_, v) :: rest, h => by
      obtain ⟨hv, hrest⟩ := List.forall_mem_cons.1 h
      exact List.forall_mem_append.2
        ⟨overt_leafSchemas hr v hv, overt_leafSchemasOfEntries hr rest hrest⟩

end

theorem overt_valueOf (hr : s.resolver.OvertTypes) {code : String} {file : Option String}
    {v : Value} (h : s.valueOf code file = .ok v) : v.Overt :=
  (Expr.evalText_gives (Expr.fileScope_overt hr s.imports file) code [] .nil).1 v h

theorem overt_schemaAt (hr : s.resolver.OvertTypes) (t : TypeRef) (crumbs : Breadcrumb) :
    (s.schemaAt t crumbs).Overt :=
  (Resolver.typeSchema_gives hr t (s.isDefinedAt t crumbs) [] .nil).1

end Setting

namespace Environment

/-- **Strict mode.** A completed document is without errors exactly if every directive that the
expansion comes to was expanded, with schemas that have no hard error that is looked for. Unless a
method has the key of a type, those schemas have no hard error at all. -/
theorem completeMap_hasErrors_iff (e : Environment) (he : e.host = .identity) (root : Entries) :
    ((e.completeMap root).hasErrors = false ↔
        ∀ v ∈ root.directives, (e.settingFor root).Expands Schema.Sound v) ∧
      (e.graph.MethodsApart → ((e.completeMap root).hasErrors = false ↔
        ∀ v ∈ root.directives, (e.settingFor root).Expands Schema.Flawless v)) := by
  have hiff := hasErrors_completeMap e he root
  refine ⟨hiff, fun hapart => hiff.trans ⟨fun h v hv => ?_, fun h v hv => ?_⟩⟩
  · have hr := overtTypes hapart h
    refine (h v hv).imp (fun code file v hvalue schema hmem => ?_) (Setting.overt_schemaAt hr)
    exact Setting.overt_leafSchemas hr v (Setting.overt_valueOf hr hvalue) schema hmem
  · exact (h v hv).imp (fun _ _ _ _ schema _ => Schema.Flawless.sound)
      fun _ _ => Schema.Flawless.sound

/-- An expression, and the document of a type that embeds a registered one, without errors. -/
theorem completeMap_hasErrors_pet :
    let base : Declaration := ⟨"zoo.Base", "Base", "zoo", .empty,
      .struct [⟨"Id", .scalar .string, .empty, [], false⟩], []⟩
    let pet : Declaration := ⟨"zoo.Pet", "Pet", "zoo", .empty,
      .struct [⟨"Base", .named "Base", .empty, [], true⟩], []⟩
    let feed : Declaration := ⟨"zoo.Pet.Feed", "Feed", "zoo", .empty, .expr .func, []⟩
    let e : Environment := ⟨{ Graph.empty with
      packages := ["zoo"], files := [("zoo", ⟨"zoo", []⟩)], types := [base, pet],
      methods := [feed] }, .identity, .default, []⟩
    let root : Entries := [("js-sum", .string "[1 + 2]"),
      ("pets", .list [.map [("x-$use", .string "zoo.Pet")]]),
      ("components", .map [("schemas", .map [("Base",
        .map [("x-$schema", .string "zoo.Base")])])])]
    e.host = .identity ∧ e.graph.MethodsApart ∧
      root.directives.map Visit.key = ["js-sum", "x-$use", "x-$schema"] ∧
      (e.settingFor root).resolver.target? "zoo.Base" = some "#/components/schemas/Base" ∧
      ∀ v ∈ root.directives, (e.settingFor root).Expands Schema.Flawless v := by
  intro base pet feed e root
  have hapart : e.graph.MethodsApart := by decide
  refine ⟨rfl, hapart, by decide +kernel, by decide +kernel, ?_⟩
  exact ((completeMap_hasErrors_iff e rfl root).2 hapart).1 (by decide +kernel)

/-- A method that has the key of a type is registered in its place. The type is rendered nowhere
then, so that a hard error behind the references to it is overlooked. -/
example :
    let node : Declaration := ⟨"lib/yaml.v2.Node", "Node", "v2", .empty,
      .struct [⟨"Bad", .named "Missing", .empty, [], false⟩], []⟩
    let pet : Declaration := ⟨"zoo.Pet", "Pet", "v2", .empty,
      .struct [⟨"Node", .named "Node", .empty, [], true⟩], []⟩
    let method : Declaration := ⟨"lib/yaml.v2.Node", "Node", "yaml", .empty, .expr .func, []⟩
    let e : Environment := ⟨{ Graph.empty with
      packages := ["lib/yaml", "zoo"], files := [("v2", ⟨"lib/yaml.v2", []⟩)],
      types := [node, pet], methods := [method] }, .identity, .default, []⟩
    let root : Entries := [("pets", .map [("x-$use", .string "zoo.Pet")]),
      ("components", .map [("schemas", .map [("Node",
        .map [("x-$schema", .string "lib/yaml.v2.Node")])])])]
    (e.completeMap root).hasErrors = false ∧
      ((e.settingFor root).schemaAt pet.ref ["pets"]).errors =
        [("can't find type 'Missing'", .hard)] := by
  decide +kernel

/-- Without errors, a path of the graph that leads nowhere stays in the document as a text, and so
does a schema with a hard error among the arguments of a modifier. -/
theorem completeMap_unresolved_unnoticed :
    let e : Environment :=
      ⟨{ Graph.empty with packages := ["app/model"] }, .identity, .default, []⟩
    let root : Entries := [("a", .map [("x-$schema", .string "app/model.Missing")])]
    let noted : Entries := [("js-a", .string "schema({}).note(schema(nowhere))")]
    e.graph.ownsPath "app/model.Missing" = true ∧
      (e.graph.resolvePath "app/model.Missing").isNone = true ∧
      (e.completeMap root).document.same (.map [("a", .map [("app/model.Missing",
        .string "error, can't resolve path: app/model.Missing")])]) = true ∧
      (e.completeMap root).hasErrors = false ∧
      (e.completeMap noted).document.same (.map [("a", .map [("type", .string "object"),
        ("properties", .map []), ("example", .map []),
        ("modify", .list [.map [("name", .string "note"), ("args",
          .list [.map [("error", .string "can't resolve 'nowhere' in 'document'")]])]])])]) =
        true ∧
      (e.completeMap noted).hasErrors = false := by
  decide +kernel

end Environment

end SchemaWeave
