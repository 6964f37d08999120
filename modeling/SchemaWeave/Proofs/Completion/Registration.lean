import SchemaWeave.Complete.Document
import SchemaWeave.Proofs.Dictionary
import SchemaWeave.Proofs.Document.Places

/-!
The first walk over a document. Where the maps that lead to the definitions hold nothing but names,
the walk registers the definitions one after the other, so of several that name one type the last
counts.
-/

namespace SchemaWeave

/-- The declaration that a text means as a type path of the graph. -/
def Graph.typeAt? (g : Graph) (text : String) : Option TypeRef :=
  let path := g.normalize text
  if g.ownsPath path then g.resolvePath path else none

/-- Whether a text is a type path of the declaration with a key. -/
def Graph.names (g : Graph) (key text : String) : Bool :=
  (g.typeAt? text).bind TypeRef.key == some key

namespace Entries

/-- No key stands twice, and none makes its entry a directive. -/
def PlainKeys (es : Entries) : Prop :=
  es.keys.Nodup ∧ ∀ key ∈ es.keys, isHostDirective key = false ∧ expressionKey? key = none

/-- The maps that lead to the definitions hold plain names alone, and a map that holds a definition
holds nothing else. -/
structure LeadsPlainly (root : Entries) : Prop where
  top : root.PlainKeys
  components {es : Entries} : (Node.map root).at? ["components"] = some (.map es) → es.PlainKeys
  schemas {es : Entries} :
    (Node.map root).at? ["components", "schemas"] = some (.map es) → es.PlainKeys
  only {es inner : Entries} {name : String} :
    (Node.map root).at? ["components", "schemas"] = some (.map es) → (name, .map inner) ∈ es →
      "x-$schema" ∈ inner.keys → ∃ v, inner = [("x-$schema", v)]

instance (es : Entries) : Decidable es.PlainKeys := inferInstanceAs (Decidable (_ ∧ _))

theorem LeadsPlainly.of_maps {root components schemas : Entries} (htop : root.PlainKeys)
    (hc : root.get? "components" = some (.map components)) (hcomponents : components.PlainKeys)
    (hs : components.get? "schemas" = some (.map schemas)) (hschemas : schemas.PlainKeys)
    (honly : ∀ e ∈ schemas, ∀ inner, e.2 = .map inner → "x-$schema" ∈ Entries.keys inner →
      ∃ v, inner = [("x-$schema", v)]) : root.LeadsPlainly := by
  have hat : (Node.map root).at? ["components"] = some (.map components) :=
    Node.at?_of_get? hc []
  have hat' : (Node.map root).at? ["components", "schemas"] = some (.map schemas) := by
    rw [Node.at?_of_get? hc, Node.at?_of_get? hs, Node.at?]
  refine ⟨htop, fun h => ?_, fun h => ?_, fun h hmem => ?_⟩
  · rw [hat, Option.some.injEq, Node.map.injEq] at h
    exact h ▸ hcomponents
  · rw [hat', Option.some.injEq, Node.map.injEq] at h
    exact h ▸ hschemas
  · rw [hat', Option.some.injEq, Node.map.injEq] at h
    exact honly _ (h ▸ hmem) _ rfl

/-- What an entry of the schemas defines: its name, with the text that says which type it is. -/
def definition? (e : String × Node) : Option (String × String) :=
  ((e.2.get? "x-$schema").bind Node.asString?).map fun text => (e.1, text)

/-- The schemas that a document defines: their names, each with the text that says which type it
is. -/
def definitions (root : Entries) : List (String × String) :=
  match (Node.map root).at? ["components", "schemas"] with
  | some (.map schemas) => schemas.filterMap definition?
  | _ => []

/-- Where a definition stands in a plain document. -/
theorem LeadsPlainly.mem_definitions {root : Entries} (hroot : root.LeadsPlainly)
    {name text : String} (h : (name, text) ∈ root.definitions) :
    ∃ components schemas : Entries, root.get? "components" = some (.map components) ∧
      components.get? "schemas" = some (.map schemas) ∧
      components.PlainKeys ∧ schemas.PlainKeys ∧
      (name, .map [("x-$schema", .string text)]) ∈ schemas := by
  unfold definitions at h
  split at h
  · rename_i schemas hschemas
    obtain ⟨components, hc, hs⟩ : ∃ components : Entries,
        root.get? "components" = some (.map components) ∧
          components.get? "schemas" = some (.map schemas) := by
      rw [Node.at?_map_cons] at hschemas
      cases hc : root.get? "components" with
      | none => simp [hc] at hschemas
      | some c =>
          cases c with
          | map components =>
              refine ⟨components, rfl, ?_⟩
              rw [hc, Option.bind_some, Node.at?_map_cons] at hschemas
              cases hs : Entries.get? "schemas" components <;> simp_all [Node.at?]
          | null | bool | number | string | list =>
              simp [hc, Node.at?, Node.get?, Node.asMap?] at hschemas
    have hcomponents : (Node.map root).at? ["components"] = some (.map components) :=
      Node.at?_of_get? hc []
    obtain ⟨⟨key, value⟩, hmem, hdefinition⟩ := List.mem_filterMap.1 h
    refine ⟨components, schemas, hc, hs, hroot.components hcomponents, hroot.schemas hschemas, ?_⟩
    rw [definition?, Option.map_eq_some_iff] at hdefinition
    obtain ⟨text', hvalue, heq⟩ := hdefinition
    obtain ⟨rfl, rfl⟩ := Prod.mk.inj heq
    obtain ⟨v, hget, hv⟩ := Option.bind_eq_some_iff.1 hvalue
    cases value with
    | map inner =>
        have hfound : Entries.get? "x-$schema" inner = some v := hget
        have hkey := mem_keys_of_mem (mem_of_get? hfound)
        obtain ⟨w, rfl⟩ := hroot.only hschemas hmem hkey
        -- the map holds the definition alone, so the key found there is its only one
        have hw : w = v := by simpa [Node.get?, Node.asMap?, get?] using hget
        subst hw
        cases w <;> simp [Node.asString?] at hv
        subst hv
        exact hmem
    | null | bool | number | string | list => simp [Node.get?, Node.asMap?] at hget
  · simp at h

/-- The last definition that names a type. -/
def lastDefinition? (root : Entries) (g : Graph) (key : String) : Option (String × String) :=
  root.definitions.reverse.find? fun d => g.names key d.2

end Entries

/-- Under distinct keys a name in a pattern selects what is below the one entry with that name. -/
theorem Entries.selectAt_name {es : Entries} (hes : es.keys.Nodup) {name : String}
    (hname : name ≠ "*") (crumbs : List String) (next : String) (rest : List String) :
    selectAt crumbs (name :: next :: rest) es =
      match es.get? name with
      | some (.map inner) => selectAt (crumbs ++ [name]) (next :: rest) inner
      | _ => [] := by
  have hmatch (key : String) : keyMatches name key = true ↔ key = name := by
    simp only [keyMatches, Bool.or_eq_true, beq_iff_eq, hname, false_or]
    exact eq_comm
  induction es with
  | nil => rfl
  | cons entry rest' ih =>
      obtain ⟨key, value⟩ := entry
      obtain ⟨hkey, hrest⟩ := List.nodup_cons.1 hes
      rw [selectAt, List.flatMap_cons, get?_cons]
      by_cases h : key = name
      · subst h
        -- no other entry has the name
        have hothers : selectAt crumbs (key :: next :: rest) rest' = [] := by
          rw [selectAt, List.flatMap_eq_nil_iff]
          rintro ⟨k, v⟩ hmem
          rw [if_neg]
          rintro hk
          exact hkey ((hmatch k).1 hk ▸ mem_keys_of_mem hmem)
        rw [selectAt] at hothers
        rw [hothers, if_pos ((hmatch key).2 rfl), if_pos rfl, List.append_nil]
        cases value <;> rfl
      · rw [if_neg (mt (hmatch key).1 h), if_neg h, List.nil_append, ← ih hrest, selectAt]

theorem Entries.selectAt_schema (crumbs : List String) (name : String) (value : Node)
    (honly : ∀ inner, value = .map inner → "x-$schema" ∈ Entries.keys inner →
      ∃ v, inner = [("x-$schema", v)]) :
    selectAt crumbs ["*", "x-$schema"] [(name, value)] =
      ((value.get? "x-$schema").map fun v => (crumbs ++ [name], v)).toList := by
  have hstar : keyMatches "*" name = true := rfl
  rw [selectAt, List.flatMap_singleton, if_pos hstar]
  cases value with
  | map inner =>
      dsimp only
      by_cases hkey : "x-$schema" ∈ Entries.keys inner
      · obtain ⟨v, rfl⟩ := honly inner rfl hkey
        simp [selectAt, keyMatches, Node.get?, Node.asMap?, get?]
      · have hnone : Entries.get? "x-$schema" inner = none := get?_of_not_mem hkey
        have hselect : selectAt (crumbs ++ [name]) ["x-$schema"] inner = [] := by
          rw [selectAt, List.map_eq_nil_iff, List.filter_eq_nil_iff]
          rintro ⟨k, v⟩ hmem hmatch
          have hk : "x-$schema" = k := by simpa [keyMatches] using hmatch
          exact hkey (hk ▸ mem_keys_of_mem hmem)
        simp [Node.get?, Node.asMap?, hnone, hselect]
  | null | bool | number | string | list => rfl

/-- The reference target of the schema with a name. -/
def schemaTarget (name : String) : String := "#/components/schemas/" ++ name

theorem schemaTarget_inj {name other : String} :
    schemaTarget name = schemaTarget other ↔ name = other := by
  unfold schemaTarget
  exact String.append_right_inj _

namespace Resolver

/-- Registers a definition under a name. -/
def registerNamed (r : Resolver) (d : String × String) : Resolver :=
  r.registerDefinition (["components", "schemas", d.1], .string d.2)

theorem registerDefinition_string (r : Resolver) (crumbs : List String) (text : String) :
    r.registerDefinition (crumbs, .string text) =
      match (r.graph.typeAt? text).bind TypeRef.key with
      | some key => r.register key ("/".intercalate crumbs)
      | none => r := by
  generalize hkey : (r.graph.typeAt? text).bind TypeRef.key = key?
  unfold Graph.typeAt? at hkey
  unfold registerDefinition
  cases key? <;> dsimp only <;> rw [hkey]

theorem registerNamed_graph (r : Resolver) (d : String × String) :
    (r.registerNamed d).graph = r.graph := by
  rw [registerNamed, registerDefinition_string]
  cases (r.graph.typeAt? d.2).bind TypeRef.key <;> rfl

theorem target?_registerNamed (r : Resolver) (d : String × String) (key : String) :
    (r.registerNamed d).target? key =
      if r.graph.names key d.2 then some (schemaTarget d.1) else r.target? key := by
  rw [registerNamed, registerDefinition_string, Graph.names]
  cases (r.graph.typeAt? d.2).bind TypeRef.key with
  | none => simp
  | some k =>
      have htarget : (r.register k ("/".intercalate ["components", "schemas", d.1])).target? key =
          if key = k then some (schemaTarget d.1) else r.target? key :=
        Dictionary.get?_insert key k _ r.registry
      simp only [htarget, eq_comm (a := key), beq_iff_eq, Option.some.injEq]

/-- Of the definitions that name a type the last one registers it. -/
theorem target?_foldl_registerNamed (r : Resolver) (ds : List (String × String)) (key : String) :
    (ds.foldl registerNamed r).target? key =
      ((ds.reverse.find? fun d => r.graph.names key d.2).map fun d => schemaTarget d.1).or
        (r.target? key) := by
  induction ds generalizing r with
  | nil => rfl
  | cons d ds ih =>
      rw [List.foldl_cons, ih, registerNamed_graph, target?_registerNamed, List.reverse_cons,
        List.find?_append]
      cases h : r.graph.names key d.2 <;> simp [h]

theorem registerDefinition_graph (r : Resolver) (d : List String × Node) :
    (r.registerDefinition d).graph = r.graph := by
  obtain ⟨crumbs, value⟩ := d
  cases value with
  | string text =>
      rw [registerDefinition_string]
      cases (r.graph.typeAt? text).bind TypeRef.key <;> rfl
  | null | bool | number | list | map => rfl

theorem registerAll_graph (r : Resolver) (root : Entries) :
    (r.registerAll root).graph = r.graph := by
  rw [registerAll]
  generalize Entries.select definitionPattern root = ds
  induction ds generalizing r with
  | nil => rfl
  | cons d ds ih => rw [List.foldl_cons, ih, registerDefinition_graph]

theorem registerDefinition_other (r : Resolver) (crumbs : List String) {value : Node}
    (h : value.asString? = none) : r.registerDefinition (crumbs, value) = r := by
  cases value with
  | string text => cases h
  | null | bool | number | list | map => rfl

theorem foldl_schemas (r : Resolver) (schemas : Entries)
    (honly : ∀ e ∈ schemas, ∀ inner, e.2 = .map inner → "x-$schema" ∈ Entries.keys inner →
      ∃ v, inner = [("x-$schema", v)]) :
    (Entries.selectAt ["components", "schemas"] ["*", "x-$schema"] schemas).foldl
        registerDefinition r =
      (schemas.filterMap Entries.definition?).foldl registerNamed r := by
  induction schemas generalizing r with
  | nil => rfl
  | cons e rest ih =>
      have hcons : Entries.selectAt ["components", "schemas"] ["*", "x-$schema"] (e :: rest) =
          Entries.selectAt ["components", "schemas"] ["*", "x-$schema"] [e] ++
            Entries.selectAt ["components", "schemas"] ["*", "x-$schema"] rest := by
        simp [Entries.selectAt]
      rw [hcons, List.foldl_append, ih _ fun e he => honly e (List.mem_cons_of_mem _ he),
        Entries.selectAt_schema _ e.1 e.2 (honly e List.mem_cons_self), List.filterMap_cons,
        Entries.definition?]
      cases e.2.get? "x-$schema" with
      | none => rfl
      | some v =>
          cases h : v.asString? with
          | none => simp [registerDefinition_other r _ h, h]
          | some text =>
              cases v <;> cases h
              simp [registerNamed, Node.asString?]

/-- Where the maps that lead to the definitions are plain, the walk registers the definitions. -/
theorem registerAll_eq (r : Resolver) {root : Entries} (hroot : root.LeadsPlainly) :
    r.registerAll root = root.definitions.foldl registerNamed r := by
  rw [registerAll, Entries.select, definitionPattern,
    Entries.selectAt_name hroot.top.1 (by decide), Entries.definitions, Node.at?_map_cons]
  cases hc : root.get? "components" with
  | none => rfl
  | some c =>
      cases c with
      | null | bool | number | string | list => rfl
      | map components =>
          have hat : (Node.map root).at? ["components"] = some (.map components) :=
            Node.at?_of_get? hc []
          dsimp only
          rw [Entries.selectAt_name (hroot.components hat).1 (by decide), Option.bind_some,
            Node.at?_map_cons]
          cases hs : Entries.get? "schemas" components with
          | none => rfl
          | some n =>
              cases n with
              | null | bool | number | string | list => rfl
              | map schemas =>
                  have hat' : (Node.map root).at? ["components", "schemas"] =
                      some (.map schemas) := by
                    rw [Node.at?_of_get? hc, Node.at?_of_get? hs, Node.at?]
                  have honly : ∀ e ∈ schemas, ∀ inner, e.2 = .map inner →
                      "x-$schema" ∈ Entries.keys inner → ∃ v, inner = [("x-$schema", v)] := by
                    rintro ⟨name, value⟩ hmem inner rfl hkey
                    exact hroot.only hat' hmem hkey
                  exact foldl_schemas r schemas honly

end Resolver

/-- The types that a pass knows are those that the document defines, each by its last definition. -/
theorem Environment.target?_settingFor (e : Environment) {root : Entries}
    (hroot : root.LeadsPlainly) (key : String) :
    (e.settingFor root).resolver.target? key =
      (root.lastDefinition? e.graph key).map fun d => schemaTarget d.1 := by
  rw [settingFor, Resolver.registerAll_eq _ hroot, Resolver.target?_foldl_registerNamed]
  exact Option.or_none

end SchemaWeave
