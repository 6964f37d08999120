import SchemaWeave.Complete.Document
import SchemaWeave.Proofs.Completion.Lowering
import SchemaWeave.Proofs.Grammar.Calls
import SchemaWeave.Proofs.Types.Keys

/-!
Three ways to ask for the schema of a declared type: its path, its name behind an alias of its
package, and a call of `schema` with that. An alias leads to the type itself (`evaluate_member`),
the call to the schema of the type (`evaluate_call`), and in the document both become that schema,
with the same record, whatever the document registers.
-/

namespace SchemaWeave

open SchemaWeave.Expr (isName)
open Grammar (reserved callText)
open TypePath (join IsDotted)

section Paths

variable {g : Graph} {package name : String}

/-- The path of a member of a package leads to it, unless the package is relative or has a point in
its last segment. -/
theorem Graph.resolvePath_join (hdotted : ¬ IsDotted package)
    (habsolute : ∀ rest, package.toList ≠ '.' :: '/' :: rest) (hname : isName name.toList = true) :
    g.resolvePath (join package name) = g.lookup package name := by
  have hslash : '/' ∉ name.toList := Grammar.not_mem_of_isName hname rfl
  have hdot : '.' ∉ name.toList := Grammar.not_mem_of_isName hname rfl
  have hne : name ≠ "" := by
    rintro rfl
    cases hname
  have hsplit : TypePath.split (g.normalize (join package name)) = (package, name) := by
    rw [g.normalize_join package hslash, Graph.normalize_of_not_relative habsolute,
      TypePath.split_join hdotted hslash]
  rw [Graph.resolvePath_eq (by rw [hsplit]; exact hne), hsplit, if_neg hdot,
    g.normalize_join package hslash, Graph.normalize_of_not_relative habsolute]
  rfl

end Paths

/-- For a type that is not registered it makes no difference whether it is asked for inline. -/
theorem Resolver.typeSchema_inline {r : Resolver} {t : TypeRef} (h : r.targetOf? t = none)
    (inline : Bool) : r.typeSchema t inline = r.typeSchema t true := by
  unfold typeSchema longestChain
  rw [typeSchemaWithin, enterType, enterType]
  cases hkey : t.key with
  | none => rfl
  | some key =>
      dsimp only
      rw [target_of_written hkey (.inr h), target_of_written hkey (.inl rfl)]

/-- A type of a package, named through an alias of the package among the configured imports. -/
structure Graph.Imports (g : Graph) (imports : Dictionary) (short package name : String)
    (t : TypeRef) : Prop where
  short_isName : isName short.toList = true
  short_free : short ∉ ["schema", "params", "null", "undefined", "true", "false"]
  name_isName : isName name.toList = true
  imported : Dictionary.get? short imports = some package
  declared : g.lookup package name = some t

namespace Graph.Imports

variable {g : Graph} {imports : Dictionary} {short package name : String} {t : TypeRef}

theorem not_reserved (h : g.Imports imports short package name t) : short ∉ reserved :=
  fun hmem => h.short_free (List.mem_cons_of_mem _ (List.mem_cons_of_mem _ hmem))

theorem ofName?_eq_none (h : g.Imports imports short package name t) :
    Function.ofName? short = none := by
  have hschema : short ≠ "schema" := fun heq => h.short_free (heq ▸ List.mem_cons_self)
  have hparams : short ≠ "params" := fun heq =>
    h.short_free (heq ▸ List.mem_cons_of_mem _ List.mem_cons_self)
  rw [Function.ofName?, if_neg hschema, if_neg hparams]

variable {r : Resolver}

/-- In the document the name behind the alias is the type. -/
theorem eval_member (h : r.graph.Imports imports short package name t) :
    Expr.eval (fileScope r imports none) (.member (.identifier short) name) = pure (.type t) := by
  have hpackage : r.graph.resolveName imports none short = .package short package := by
    simp only [Graph.resolveName, h.imported]
    rfl
  have hshort : Expr.eval (fileScope r imports none) (.identifier short) =
      pure (.package short package) := by
    rw [Expr.eval, h.ofName?_eq_none, ← hpackage]
    rfl
  rw [Expr.eval, hshort, pure_bind]
  simp only [Value.member?, fileScope, h.declared, Value.ofLookup]

/-- The call is the schema of the type. -/
theorem eval_call (h : r.graph.Imports imports short package name t) :
    Expr.eval (fileScope r imports none)
        (.call (.identifier "schema") [.member (.identifier short) name]) =
      ExceptT.lift (do return .schema (← r.typeSchema t false)) := by
  have hfunction : Expr.eval (fileScope r imports none) (.identifier "schema") =
      pure (.function .schema) := by
    rw [Expr.eval, Function.ofName?, if_pos rfl]
  rw [Expr.eval, hfunction, pure_bind]
  simp only [Expr.evalArguments, h.eval_member, pure_bind, Expr.applyFunction]
  rfl

end Graph.Imports

namespace Setting

variable {s : Setting} {short package name : String} {t : TypeRef}

theorem evaluate_member (h : s.resolver.graph.Imports s.imports short package name t) :
    s.evaluate (join short name) none = pure (.ok (.type t)) := by
  rw [evaluate, Expr.evalText, Grammar.parse_member h.short_isName h.name_isName h.not_reserved]
  dsimp only
  rw [h.eval_member]
  rfl

theorem evaluate_call (h : s.resolver.graph.Imports s.imports short package name t) :
    s.evaluate (callText "schema" (join short name)) none = do
      return .ok (.schema (← resolve (s.resolver.typeSchema t false))) := by
  rw [evaluate, Expr.evalText, Grammar.parse_call_member rfl (by decide) h.short_isName
    h.name_isName h.not_reserved]
  dsimp only
  rw [h.eval_call]
  rfl

/-- Puts the schema of a type into the document. -/
def renderType (s : Setting) (t : TypeRef) : Pass Node := do
  render (← resolve (s.resolver.typeSchema t false))

theorem renderType_isolated (s : Setting) (t : TypeRef) :
    Isolated (s.renderType t) (s.schemaFor (.type t)).toNode
      ⟨[], if (s.schemaFor (.type t)).containsHardError then 1 else 0, []⟩ := by
  have hresolve := (resolve_isolates (s.resolver.typeSchema_steady t false)).isolated
  rw [recordOf_resolve (s.resolver.typeSchema_steady t false)] at hresolve
  have hall := hresolve.bind (render_isolated (s.schemaFor (.type t)))
  rw [Record.empty_append] at hall
  exact hall

theorem expressionDirective_member (h : s.resolver.graph.Imports s.imports short package name t)
    (key : String) (crumbs : List String) :
    s.expressionDirective key (.string (join short name)) none crumbs = s.renderType t := by
  rw [expressionDirective, evaluate_member h, pure_bind]
  rfl

theorem expressionDirective_call (h : s.resolver.graph.Imports s.imports short package name t)
    (key : String) (crumbs : List String) :
    s.expressionDirective key (.string (callText "schema" (join short name))) none crumbs =
      s.renderType t := by
  rw [expressionDirective, evaluate_call h]
  simp only [bind_assoc, pure_bind]
  rfl

/-- An expression directive is stored under its name. -/
theorem expandEntries_directive (s : Setting) (crumbs : List String) (k : String) (value : Node) :
    s.expandEntries crumbs [("js-" ++ k, value)] = do
      let node ← s.expressionDirective ("js-" ++ k) value none crumbs
      return [(k, node)] := by
  have hhost : isHostDirective ("js-" ++ k) = false := by
    simp [isHostDirective, Text.stripStart]
  have hkey : expressionKey? ("js-" ++ k) = some k := by
    simp [expressionKey?, Text.stripStart]
  simp [expandEntries, hhost, hkey]

end Setting

namespace Environment

variable {e : Environment} {short package name : String} {t : TypeRef}

/-- The schema of a type in a document that registers nothing. -/
def schemaOf (e : Environment) (t : TypeRef) : Schema := e.setting.schemaFor (.type t)

theorem typeSchema_path (h : e.graph.Imports e.imports short package name t)
    (hdotted : ¬ IsDotted package) (habsolute : ∀ rest, package.toList ≠ '.' :: '/' :: rest) :
    e.typeSchema (join package name) = some (e.schemaOf t).toNode := by
  have hunregistered : e.setting.resolver.targetOf? t = none := by
    rw [Resolver.targetOf?]
    cases t.key with
    | none => rfl
    | some key => rfl
  rw [typeSchema, Graph.resolvePath_join hdotted habsolute h.name_isName, h.declared,
    Option.map_some, ← Resolver.typeSchema_inline hunregistered false]
  rfl

theorem evaluate_member (h : e.graph.Imports e.imports short package name t) :
    e.evaluate (join short name) none = .ok (e.schemaOf t).toNode := by
  have hrender := (e.setting.renderType_isolated t).run_start.1
  rw [evaluate, Setting.evaluate_member h, pure_bind, schemaOf, ← hrender]
  rfl

theorem evaluate_call (h : e.graph.Imports e.imports short package name t) :
    e.evaluate (callText "schema" (join short name)) none = .ok (e.schemaOf t).toNode := by
  have hrender := (e.setting.renderType_isolated t).run_start.1
  rw [evaluate, Setting.evaluate_call h, schemaOf, ← hrender]
  rfl

end Environment

/-- **Three ways to ask for the schema of a type agree.** Its path, its name behind an alias of its
package, and the call of `schema` with that name give one document. As directives of a document that
is completed with the same types and imports, whatever is registered, the name and the call expand
to the same entry: the schema of the type, which is counted if it has a hard error. -/
theorem Environment.typeSchema_queries {e : Environment} {short package name : String} {t : TypeRef}
    (h : e.graph.Imports e.imports short package name t) (hdotted : ¬ IsDotted package)
    (habsolute : ∀ rest, package.toList ≠ '.' :: '/' :: rest) :
    (∃ n, e.typeSchema (join package name) = some n ∧
      e.evaluate (join short name) none = .ok n ∧
      e.evaluate (callText "schema" (join short name)) none = .ok n) ∧
    ∀ s : Setting, s.resolver.graph = e.graph → s.imports = e.imports → ∀ crumbs key,
      let byName := s.expandEntries crumbs [("js-" ++ key, .string (join short name))]
      let byCall :=
        s.expandEntries crumbs [("js-" ++ key, .string (callText "schema" (join short name)))]
      let schema := s.schemaFor (.type t)
      byName = byCall ∧ Isolated byName [(key, schema.toNode)]
        ⟨[], if schema.containsHardError then 1 else 0, []⟩ := by
  constructor
  · exact ⟨_, typeSchema_path h hdotted habsolute, evaluate_member h, evaluate_call h⟩
  · intro s hgraph himports crumbs key
    -- the type is imported in the pass as well, so both directives put its schema there
    rw [← hgraph, ← himports] at h
    have hname := s.expandEntries_directive crumbs key (.string (join short name))
    have hcall := s.expandEntries_directive crumbs key
      (.string (callText "schema" (join short name)))
    rw [Setting.expressionDirective_member h] at hname
    rw [Setting.expressionDirective_call h] at hcall
    have hisolated := (s.renderType_isolated t).map fun node => [(key, node)]
    exact ⟨hname.trans hcall.symm, hname ▸ hisolated⟩

/-- A node of a tree by its path, by an alias and by a call; once where it is registered. -/
theorem Environment.typeSchema_queries_node :
    let e : Environment := ⟨Twins.graph, .identity, .default, [("yaml", "app/yaml")]⟩
    let s : Setting :=
      { e.setting with resolver := e.setting.resolver.register "app/yaml.Node" "nodes/Node" }
    (∃ n, e.typeSchema "app/yaml.Node" = some n ∧ e.evaluate "yaml.Node" none = .ok n ∧
      e.evaluate "schema(yaml.Node)" none = .ok n) ∧
    s.expandEntries [] [("js-node", .string "yaml.Node")] =
      s.expandEntries [] [("js-node", .string "schema(yaml.Node)")] := by
  intro e s
  have h : e.graph.Imports e.imports "yaml" "app/yaml" "Node" (Twins.node "app/yaml").ref :=
    ⟨by decide, by decide, by decide, rfl, rfl⟩
  have habsolute : ∀ rest, "app/yaml".toList ≠ '.' :: '/' :: rest := by
    rintro rest ⟨⟩
  obtain ⟨hagree, hpass⟩ := typeSchema_queries h Twins.graph_isPlain.undotted habsolute
  exact ⟨hagree, (hpass s rfl rfl [] "node").1⟩

end SchemaWeave
