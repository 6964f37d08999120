import SchemaWeave.Proofs.Completion.Strict
import SchemaWeave.Proofs.Document.Parts

/-!
What becomes of the metadata of a declaration. `Setting.Gives` says what an expression at a place of
the document becomes: the document form of its value, or its error, which is recorded. With that,
`EntriesBecome` relates metadata to its full expansion, at every depth of maps and lists.

Metadata is expanded through its maps alone. What stands in its lists is left as it was declared, so
the relation holds where no list has anything to expand (`typeDocument_metadata`).
-/

namespace SchemaWeave

namespace Setting

/-- A value as it stands in the document. -/
def documentForm (s : Setting) (v : Value) : Node := ((s.lower v).run .start).1

/-- What an expression becomes under a key at a place of the document: its value, or its error, for
which there is a diagnostic. -/
def Gives (s : Setting) (file : String) (recorded : List Diagnostic) (crumbs : Breadcrumb)
    (key code : String) (node : Node) : Prop :=
  match s.valueOf code (some file) with
  | .ok v => node = s.documentForm v
  | .error e => node = .map [("error", .string e.message)] ∧
      ⟨".".intercalate (crumbs ++ [key]), e.message⟩ ∈ recorded

/-- What the value of an expression directive becomes. One that is no text is an error. -/
def DirectiveGives (s : Setting) (file : String) (recorded : List Diagnostic) (crumbs : Breadcrumb)
    (key : String) (value node : Node) : Prop :=
  match value with
  | .string code => s.Gives file recorded crumbs key code node
  | other =>
    let message := s!"value of '{key}' must be a string expression, found {other.kindName}"
    node = .map [("error", .string message)] ∧
      ⟨".".intercalate (crumbs ++ [key]), message⟩ ∈ recorded

/-- What a text becomes. A text that is marked becomes what its expression does; another one may
stay, or become the value that it happens to have. -/
def TextGives (s : Setting) (file : String) (recorded : List Diagnostic) (crumbs : Breadcrumb)
    (key text : String) (node : Node) : Prop :=
  match ExpressionForm.detect text with
  | .explicit code | .bracketed code => s.Gives file recorded crumbs key code node
  | .candidate code => node = .string text ∨
      ∃ v, s.valueOf code (some file) = .ok v ∧ v.isNullish = false ∧ node = s.documentForm v
  | .plain => node = .string text

mutual

/-- Entries at a place of the document are expanded, one by one. -/
inductive EntriesBecome (s : Setting) (file : String) (recorded : List Diagnostic) :
    Breadcrumb → Entries → Entries → Prop where
  | nil {crumbs : Breadcrumb} : EntriesBecome s file recorded crumbs [] []
  | directive {crumbs : Breadcrumb} {key name : String} {value node : Node} {es es' : Entries} :
      expressionKey? key = some name → s.DirectiveGives file recorded crumbs key value node →
      EntriesBecome s file recorded crumbs es es' →
      EntriesBecome s file recorded crumbs ((key, value) :: es) ((name, node) :: es')
  | entry {crumbs : Breadcrumb} {key : String} {value node : Node} {es es' : Entries} :
      expressionKey? key = none → NodeBecomes s file recorded crumbs key value node →
      EntriesBecome s file recorded crumbs es es' →
      EntriesBecome s file recorded crumbs ((key, value) :: es) ((key, node) :: es')

/-- A value under a key is expanded. -/
inductive NodeBecomes (s : Setting) (file : String) (recorded : List Diagnostic) :
    Breadcrumb → String → Node → Node → Prop where
  | text {crumbs : Breadcrumb} {key text : String} {node : Node} :
      s.TextGives file recorded crumbs key text node →
      NodeBecomes s file recorded crumbs key (.string text) node
  | map {crumbs : Breadcrumb} {key : String} {es es' : Entries} :
      EntriesBecome s file recorded (crumbs ++ [key]) es es' →
      NodeBecomes s file recorded crumbs key (.map es) (.map es')
  | list {crumbs : Breadcrumb} {key : String} {items items' : List Node} :
      ItemsBecome s file recorded (crumbs ++ [key]) 0 items items' →
      NodeBecomes s file recorded crumbs key (.list items) (.list items')
  | null {crumbs : Breadcrumb} {key : String} : NodeBecomes s file recorded crumbs key .null .null
  | bool {crumbs : Breadcrumb} {key : String} (b : Bool) :
      NodeBecomes s file recorded crumbs key (.bool b) (.bool b)
  | number {crumbs : Breadcrumb} {key : String} (x : Number) :
      NodeBecomes s file recorded crumbs key (.number x) (.number x)

/-- List items, the first of which has the given index, are expanded. -/
inductive ItemsBecome (s : Setting) (file : String) (recorded : List Diagnostic) :
    Breadcrumb → Nat → List Node → List Node → Prop where
  | nil {crumbs : Breadcrumb} {index : Nat} : ItemsBecome s file recorded crumbs index [] []
  | cons {crumbs : Breadcrumb} {index : Nat} {item node : Node} {items items' : List Node} :
      NodeBecomes s file recorded crumbs (Nat.repr index) item node →
      ItemsBecome s file recorded crumbs (index + 1) items items' →
      ItemsBecome s file recorded crumbs index (item :: items) (node :: items')

end

end Setting

/-- A node that is not to be expanded itself: a text without a mark, or a map without expression
directives. -/
def Node.IsInert : Node → Prop
  | .string text => (ExpressionForm.detect text).isMarked = false
  | .map es => ∀ key ∈ Entries.keys es, expressionKey? key = none
  | .list _ | .null | .bool _ | .number _ => True

instance : DecidablePred Node.IsInert := fun n =>
  match n with
  | .string text => inferInstanceAs (Decidable ((ExpressionForm.detect text).isMarked = false))
  | .map es => inferInstanceAs (Decidable (∀ key ∈ Entries.keys es, expressionKey? key = none))
  | .list _ | .null | .bool _ | .number _ => inferInstanceAs (Decidable True)

mutual

/-- The lists that the expansion of metadata comes to. -/
def Entries.listsWithin : List (String × Node) → List (List Node)
  | [] => []
  | (key, value) :: rest =>
    (match expressionKey? key with
      | some _ => []
      | none => Node.listsWithin value) ++
      Entries.listsWithin rest

def Node.listsWithin : Node → List (List Node)
  | .map es => Entries.listsWithin es
  | .list items => [items]
  | .null => []
  | .bool _ => []
  | .number _ => []
  | .string _ => []

end

/-! ### Answers with their diagnostics -/

section Settles

variable {α β : Type}

/-- The action is isolated, and what it answers has the property as soon as its diagnostics are
recorded. -/
def Settles (a : Pass α) (P : List Diagnostic → α → Prop) : Prop :=
  ∃ x w, Isolated a x w ∧ ∀ recorded, w.diagnostics ⊆ recorded → P recorded x

variable {a : Pass α} {P : List Diagnostic → α → Prop}

theorem Isolated.settles {x : α} {w : Record} (h : Isolated a x w)
    (hP : ∀ recorded, w.diagnostics ⊆ recorded → P recorded x) : Settles a P :=
  ⟨x, w, h, hP⟩

theorem Settles.imp (ha : Settles a P) {Q : List Diagnostic → α → Prop}
    (hPQ : ∀ recorded x, P recorded x → Q recorded x) : Settles a Q := by
  obtain ⟨x, w, hx, hP⟩ := ha
  exact ⟨x, w, hx, fun recorded hw => hPQ recorded x (hP recorded hw)⟩

theorem Settles.map (ha : Settles a P) (f : α → β) {Q : List Diagnostic → β → Prop}
    (hPQ : ∀ recorded x, P recorded x → Q recorded (f x)) : Settles (do return f (← a)) Q := by
  obtain ⟨x, w, hx, hP⟩ := ha
  exact ⟨f x, w, hx.map f, fun recorded hw => hPQ recorded x (hP recorded hw)⟩

/-- Two actions one after the other: both answers have their property. -/
theorem Settles.both (ha : Settles a P) {b : Pass β} {Q : List Diagnostic → β → Prop}
    (hb : Settles b Q) {γ : Type} (f : α → β → γ) {R : List Diagnostic → γ → Prop}
    (hR : ∀ recorded x y, P recorded x → Q recorded y → R recorded (f x y)) :
    Settles (do let x ← a; let y ← b; return f x y) R := by
  obtain ⟨x, w, hx, hP⟩ := ha
  obtain ⟨y, w', hy, hQ⟩ := hb
  refine ⟨f x y, w.append w', hx.bind (hy.map (f x)), fun recorded hw => ?_⟩
  obtain ⟨hw, hw'⟩ := List.append_subset.1 hw
  exact hR recorded x y (hP recorded hw) (hQ recorded hw')

end Settles

namespace Setting

variable {s : Setting} {file : String}

/-! ### Expressions and texts -/

theorem evaluate_isolated (code : String) (file : Option String) :
    Isolated (s.evaluate code file) (s.valueOf code file) .empty := by
  have hsteady := Expr.evalText_steady (Expr.fileScope_steady s.resolver s.imports file) code
  have hisolated := (resolve_isolates hsteady).isolated
  rw [recordOf_resolve hsteady] at hisolated
  exact hisolated

theorem lower_settles (v : Value) : Settles (s.lower v) fun _ node => node = s.documentForm v :=
  (lower_isolates s v).isolated.settles fun _ _ => rfl

theorem fail_settles (crumbs : Breadcrumb) (key message : String) :
    Settles (fail crumbs key message) fun recorded node =>
      node = .map [("error", .string message)] ∧
        ⟨".".intercalate (crumbs ++ [key]), message⟩ ∈ recorded :=
  (fail_isolated crumbs key message).settles fun _ hw => ⟨rfl, hw List.mem_cons_self⟩

/-- After an evaluation the rest depends on the value alone. -/
theorem settles_evaluate_bind {β : Type} {b : Except ExprError Value → Pass β}
    {P : List Diagnostic → β → Prop} (code : String) (file : Option String)
    (hb : Settles (b (s.valueOf code file)) P) : Settles (s.evaluate code file >>= b) P := by
  obtain ⟨x, w, hx, hP⟩ := hb
  have hall := (evaluate_isolated code file).bind hx
  rw [Record.empty_append] at hall
  exact ⟨x, w, hall, hP⟩

theorem expressionDirective_settles (crumbs : Breadcrumb) (key : String) (value : Node) :
    Settles (s.expressionDirective key value (some file) crumbs) fun recorded node =>
      s.DirectiveGives file recorded crumbs key value node := by
  cases value with
  | string code =>
      refine settles_evaluate_bind code (some file) ?_
      simp only [DirectiveGives, Gives]
      cases s.valueOf code (some file) with
      | ok v => exact lower_settles v
      | error e => exact fail_settles crumbs key e.message
  | null | bool | number | list | map => exact fail_settles crumbs key _

/-- What metadata answers for a text that was looked at. -/
def textAnswer (crumbs : Breadcrumb) (key text : String) :
    Except ExprError (Option Node) → Pass Node
  | .ok (some node) => return node
  | .ok none => return .string text
  | .error e => fail crumbs key e.message

theorem metadataText_eq (crumbs : Breadcrumb) (key text : String) :
    s.metadataText file crumbs key text =
      s.expandText text (some file) >>= textAnswer crumbs key text := by
  refine bind_congr fun result => ?_
  rcases result with e | _ | node <;> rfl

theorem metadataText_of_code {text code : String} (crumbs : Breadcrumb) (key : String)
    (hcode : (ExpressionForm.detect text).code? = some code) :
    s.metadataText file crumbs key text = s.evaluate code (some file) >>= fun r =>
      s.settleText (ExpressionForm.detect text).isMarked r >>= textAnswer crumbs key text := by
  rw [metadataText_eq, expandText_of_code (some file) hcode, bind_assoc]

/-- A marked text gives what its expression does. -/
theorem marked_settles (crumbs : Breadcrumb) (key text code : String) :
    Settles (s.evaluate code (some file) >>= fun r =>
        s.settleText true r >>= textAnswer crumbs key text) fun recorded node =>
      s.Gives file recorded crumbs key code node := by
  refine settles_evaluate_bind code (some file) ?_
  simp only [Gives]
  cases s.valueOf code (some file) with
  | ok v =>
      simp only [settleText, Bool.true_or, if_true, bind_assoc, pure_bind, textAnswer, bind_pure]
      exact lower_settles v
  | error e => exact fail_settles crumbs key e.message

theorem metadataText_settles (crumbs : Breadcrumb) (key text : String) :
    Settles (s.metadataText file crumbs key text) fun recorded node =>
      s.TextGives file recorded crumbs key text node := by
  unfold TextGives
  cases hform : ExpressionForm.detect text with
  | explicit code | bracketed code =>
      rw [metadataText_of_code crumbs key (congrArg ExpressionForm.code? hform), hform]
      exact marked_settles crumbs key text code
  | candidate code =>
      rw [metadataText_of_code crumbs key (congrArg ExpressionForm.code? hform), hform]
      refine settles_evaluate_bind code (some file) ?_
      cases hv : s.valueOf code (some file) with
      | ok v =>
          cases hnullish : v.isNullish with
          | true =>
              simp only [settleText, hnullish, ExpressionForm.isMarked, Bool.not_true,
                Bool.or_false, Bool.false_eq_true, if_false, pure_bind]
              exact (isolated_pure _).settles fun _ _ => .inl rfl
          | false =>
              simp only [settleText, hnullish, Bool.not_false, Bool.or_true, if_true, bind_assoc,
                pure_bind, textAnswer, bind_pure]
              exact (lower_settles v).imp fun _ _ hnode => .inr ⟨v, hv, hnullish, hnode⟩
      | error e => exact (isolated_pure _).settles fun _ _ => .inl rfl
  | plain =>
      rw [metadataText_eq, expandText, hform]
      exact (isolated_pure _).settles fun _ _ => rfl

/-- A text without a mark may stay. -/
theorem textGives_self {recorded : List Diagnostic} {text : String}
    (h : (ExpressionForm.detect text).isMarked = false) (crumbs : Breadcrumb) (key : String) :
    s.TextGives file recorded crumbs key text (.string text) := by
  unfold TextGives
  cases hform : ExpressionForm.detect text with
  | explicit code | bracketed code =>
      rw [hform] at h
      cases h
  | candidate code => exact .inl rfl
  | plain => rfl

/-! ### Maps and lists -/

theorem itemsBecome_self {recorded : List Diagnostic} {items : List Node}
    (h : ∀ item ∈ items, ∀ crumbs key, s.NodeBecomes file recorded crumbs key item item) :
    ∀ crumbs index, s.ItemsBecome file recorded crumbs index items items := by
  induction items with
  | nil => exact fun _ _ => .nil
  | cons item items ih =>
      obtain ⟨hitem, hitems⟩ := List.forall_mem_cons.1 h
      exact fun crumbs index => .cons (hitem crumbs _) (ih hitems crumbs (index + 1))

theorem entriesBecome_self {recorded : List Diagnostic} {es : Entries}
    (hkeys : ∀ key ∈ Entries.keys es, expressionKey? key = none)
    (h : ∀ entry ∈ es, ∀ crumbs key, s.NodeBecomes file recorded crumbs key entry.2 entry.2)
    (crumbs : Breadcrumb) : s.EntriesBecome file recorded crumbs es es := by
  induction es with
  | nil => exact .nil
  | cons entry es ih =>
      obtain ⟨hkey, hkeys⟩ := List.forall_mem_cons.1 hkeys
      obtain ⟨hentry, hes⟩ := List.forall_mem_cons.1 h
      exact .entry hkey (hentry crumbs entry.1) (ih hkeys hes)

/-- Where nothing is to be expanded, leaving everything as it is expands it. -/
theorem nodeBecomes_self {n : Node} (h : n.Throughout Node.IsInert) (recorded : List Diagnostic) :
    ∀ crumbs key, s.NodeBecomes file recorded crumbs key n n := by
  induction n using Node.induction with
  | map es ih =>
      obtain ⟨hkeys, hvalues⟩ := Node.throughout_map.1 h
      have hentries := entriesBecome_self hkeys fun entry hentry =>
        ih entry hentry (hvalues entry hentry)
      exact fun crumbs key => .map (hentries (crumbs ++ [key]))
  | list items ih =>
      obtain ⟨-, hvalues⟩ := Node.throughout_list.1 h
      have hitems := itemsBecome_self fun item hitem => ih item hitem (hvalues item hitem)
      exact fun crumbs key => .list (hitems (crumbs ++ [key]) 0)
  | null => exact fun _ _ => .null
  | bool b => exact fun _ _ => .bool b
  | number x => exact fun _ _ => .number x
  | string text =>
      have htext : Node.IsInert (.string text) := h.self
      exact fun crumbs key => .text (textGives_self htext crumbs key)

mutual

/-- **Metadata is expanded**, entry by entry, if its lists have nothing to expand. -/
theorem expandMetadata_settles (s : Setting) (file : String) : ∀ crumbs es,
    (∀ items ∈ Entries.listsWithin es, ∀ item ∈ items, item.Throughout Node.IsInert) →
      Settles (s.expandMetadata file crumbs es) fun recorded out =>
        s.EntriesBecome file recorded crumbs es out
  | _, [], _ => (isolated_pure _).settles fun _ _ => .nil
  | crumbs, (key, value) :: rest, h => by
      rw [Entries.listsWithin, List.forall_mem_append] at h
      have hothers := expandMetadata_settles s file crumbs rest h.2
      rw [expandMetadata]
      cases hname : expressionKey? key with
      | some name =>
          simp only [pure_bind]
          exact (expressionDirective_settles crumbs key value).both hothers
            (fun node others => (name, node) :: others) fun _ _ _ => .directive hname
      | none =>
          rw [hname] at h
          simp only [pure_bind]
          exact (expandMetadataNode_settles s file crumbs key value h.1).both hothers
            (fun node others => (key, node) :: others) fun _ _ _ => .entry hname

theorem expandMetadataNode_settles (s : Setting) (file : String) : ∀ crumbs key value,
    (∀ items ∈ Node.listsWithin value, ∀ item ∈ items, item.Throughout Node.IsInert) →
      Settles (s.expandMetadataNode file crumbs key value) fun recorded node =>
        s.NodeBecomes file recorded crumbs key value node
  | crumbs, key, .string text, _ =>
      (metadataText_settles crumbs key text).imp fun _ _ => .text
  | crumbs, key, .map es, h =>
      (expandMetadata_settles s file (crumbs ++ [key]) es h).map _ fun _ _ => .map
  -- a list is left as it is, which is its expansion if there is nothing in it to expand
  | _, _, .list items, h => (isolated_pure _).settles fun recorded _ =>
      .list (itemsBecome_self (fun item hitem =>
        nodeBecomes_self (h items (List.mem_singleton.2 rfl) item hitem) recorded) _ 0)
  | _, _, .null, _ => (isolated_pure _).settles fun _ _ => .null
  | _, _, .bool b, _ => (isolated_pure _).settles fun _ _ => .bool b
  | _, _, .number x, _ => (isolated_pure _).settles fun _ _ => .number x

end

/-- **The metadata of a type document is expanded.** In the document of a declaration every marked
text, at every depth of the maps of its metadata, became the value of its expression in the file of
the declaration, or its error with a diagnostic, and every expression directive did so under its
name, if the lists of the metadata have nothing to expand. -/
theorem typeDocument_metadata (s : Setting) (t : TypeRef) (crumbs : Breadcrumb)
    (hlists : ∀ items ∈ Entries.listsWithin t.doc.metadata,
      ∀ item ∈ items, item.Throughout Node.IsInert) :
    ∃ document metadata w, Isolated (s.typeDocument t crumbs) (.map document) w ∧
      Entries.get? "meta" document = some (.map metadata) ∧
      s.EntriesBecome t.file w.diagnostics (crumbs ++ ["meta"]) t.doc.metadata metadata := by
  obtain ⟨metadata, w, hmetadata, hbecome⟩ :=
    expandMetadata_settles s t.file (crumbs ++ ["meta"]) t.doc.metadata hlists
  simp only [typeDocument]
  cases t.isFunc with
  | true =>
      refine ⟨_, metadata, _, hmetadata.map _, rfl, hbecome _ (List.Subset.refl _)⟩
  | false =>
      have hschema := (resolve_isolates
        (s.resolver.typeSchema_steady t (s.isDefinedAt t crumbs))).isolated
      refine ⟨_, metadata, _, hmetadata.bind (hschema.bind ((render_isolated _).bind
        (isolated_pure _))), rfl, hbecome _ (List.subset_append_left _ _)⟩

end Setting

/-! A pet whose metadata has expressions in its maps, and one that has some in a list. -/

namespace Annotated

def setting : Setting := Environment.setting ⟨.empty, .identity, .default, []⟩

def pet (metadata : Entries) : TypeRef :=
  ⟨some "zoo.Pet", some "Pet", "zoo", { Doc.empty with metadata }, .struct []⟩

/-- Directives and marked texts in nested maps, one of which cannot be read; the list has none. -/
def inMaps : TypeRef := pet [("js-sum", .string "1 + 2"), ("js-none", .null),
  ("info", .map [("title", .string "<'a' + 'b'>"), ("broken", .string "js: ("),
    ("tags", .list [.string "tame", .map [("age", .int 3)]])])]

def inList : TypeRef :=
  pet [("ages", .list [.string "js: 1 + 2", .map [("js-sum", .string "1 + 2")]])]

theorem typeDocument_metadata_inMaps :
    (∀ items ∈ Entries.listsWithin inMaps.doc.metadata,
      ∀ item ∈ items, item.Throughout Node.IsInert) ∧
    ∃ document metadata w, Isolated (setting.typeDocument inMaps ["pet"]) (.map document) w ∧
      Entries.get? "meta" document = some (.map metadata) ∧
      setting.EntriesBecome "zoo" w.diagnostics ["pet", "meta"] inMaps.doc.metadata metadata := by
  have hlists : ∀ items ∈ Entries.listsWithin inMaps.doc.metadata,
      ∀ item ∈ items, item.Throughout Node.IsInert := by
    decide +kernel
  exact ⟨hlists, setting.typeDocument_metadata inMaps ["pet"] hlists⟩

/-- In a list a marked text and an expression directive stay as they were declared. -/
theorem typeDocument_keeps_lists :
    (∃ document, ((setting.typeDocument inList []).run .start).1 = .map document ∧
      Entries.get? "meta" document = some (.map inList.doc.metadata)) ∧
    ¬ ∃ document metadata w, Isolated (setting.typeDocument inList []) (.map document) w ∧
      Entries.get? "meta" document = some (.map metadata) ∧
      setting.EntriesBecome "zoo" w.diagnostics ["meta"] inList.doc.metadata metadata := by
  refine ⟨⟨_, rfl, rfl⟩, ?_⟩
  rintro ⟨document, metadata, w, hdocument, hmeta, hbecome⟩
  obtain rfl := Node.map.inj hdocument.run_start.1
  obtain rfl := Node.map.inj (Option.some.inj hmeta)
  have hvalue : (match setting.valueOf "1 + 2" (some "zoo") with
      | .ok v => (setting.documentForm v).same (.int 3)
      | .error _ => true) = true := by
    decide +kernel
  have hmarked : ExpressionForm.detect "js: 1 + 2" = .explicit "1 + 2" := by decide +kernel
  cases hbecome with
  | directive hname _ _ => exact absurd hname (by decide +kernel)
  | entry _ hages _ =>
      cases hages with
      | list hitems =>
          cases hitems with
          | cons hitem _ =>
              cases hitem with
              | text htext =>
                  simp only [Setting.TextGives, hmarked, Setting.Gives] at htext
                  cases hresult : setting.valueOf "1 + 2" (some "zoo") with
                  | ok v =>
                      simp only [hresult] at htext hvalue
                      rw [← htext] at hvalue
                      cases hvalue
                  | error e =>
                      simp only [hresult] at htext
                      cases htext.1

end Annotated

end SchemaWeave
