import SchemaWeave.Proofs.Completion.Lowering

/-!
What an expansion without errors means. `Entries.directives` lists the directives that an expansion
comes to, and `Setting.Expands` says of one that it was expanded: its expression has a value, the
texts among the metadata of the declaration that it names have theirs, and the schemas that it puts
into the document are as a predicate says. An expansion records no error exactly if every directive
was expanded, with schemas that are sound (`Setting.clean_expandEntries`).
-/

namespace SchemaWeave

variable {β : Type}

namespace Setting

/-! ### What expanding a directive takes -/

/-- The value of an expression in a file, or why there is none. -/
def valueOf (s : Setting) (code : String) (file : Option String) : Except ExprError Value :=
  ((s.evaluate code file).run .start).1

/-- An expression has a value; every name in it was found, and the schemas that it puts into the
document satisfy the predicate. -/
def HasValue (s : Setting) (P : Schema → Prop) (code : String) (file : Option String) : Prop :=
  ∃ v, s.valueOf code file = .ok v ∧ v.missingNames = [] ∧ ∀ schema ∈ s.leafSchemas v, P schema

/-- A text that is marked as an expression has a value; a text that is none without a mark may stay
as it is. -/
def TextExpands (s : Setting) (P : Schema → Prop) (text : String) (file : Option String) : Prop :=
  match ExpressionForm.detect text with
  | .explicit code | .bracketed code => s.HasValue P code file
  | .candidate code =>
    ∀ v, s.valueOf code file = .ok v → v.isNullish = false → ∀ schema ∈ s.leafSchemas v, P schema
  | .plain => True

/-- The value of an expression directive is an expression that has a value. -/
def ExpressionExpands (s : Setting) (P : Schema → Prop) (value : Node) (file : Option String) :
    Prop :=
  ∃ code, value = .string code ∧ s.HasValue P code file

end Setting

mutual

/-- The entries of metadata that are evaluated, at every depth of its maps: expression directives
and texts. -/
def Entries.evaluatedEntries : List (String × Node) → List (String × Node)
  | [] => []
  | (key, value) :: rest =>
    (match expressionKey? key with
      | some _ => [(key, value)]
      | none => Node.evaluatedEntries key value) ++
      Entries.evaluatedEntries rest

def Node.evaluatedEntries (key : String) : Node → List (String × Node)
  | .string text => [(key, .string text)]
  | .map entries => Entries.evaluatedEntries entries
  | .null => []
  | .bool _ => []
  | .number _ => []
  | .list _ => []

end

mutual

/-- The directives that the expansion of a map at the given place comes to, those inside the value
of a host directive included. -/
def Entries.directivesAt (crumbs : Breadcrumb) : List (String × Node) → List Visit
  | [] => []
  | (key, value) :: rest =>
    (if isHostDirective key then
        ⟨crumbs, key, value⟩ :: Node.directivesAt (crumbs ++ [key]) value
      else
        match expressionKey? key with
        | some _ => [⟨crumbs, key, value⟩]
        | none => Node.directivesAt (crumbs ++ [key]) value) ++
      Entries.directivesAt crumbs rest

def Node.directivesAt (crumbs : Breadcrumb) : Node → List Visit
  | .map es => Entries.directivesAt crumbs es
  | .list items => Node.directivesItems crumbs 0 items
  | .null => []
  | .bool _ => []
  | .number _ => []
  | .string _ => []

/-- The directives inside list items, the first of which has the given index. -/
def Node.directivesItems (crumbs : Breadcrumb) (index : Nat) : List Node → List Visit
  | [] => []
  | item :: rest =>
    Node.directivesAt (crumbs ++ [Nat.repr index]) item ++
      Node.directivesItems crumbs (index + 1) rest

end

/-- The directives that the expansion of a document comes to. -/
def Entries.directives (root : Entries) : List Visit := Entries.directivesAt [] root

mutual

theorem Entries.hostDirectivesAt_eq : ∀ crumbs es,
    Entries.hostDirectivesAt crumbs es =
      (Entries.directivesAt crumbs es).filter fun v => isHostDirective v.key
  | _, [] => rfl
  | crumbs, (key, value) :: rest => by
      rw [Entries.hostDirectivesAt, Entries.directivesAt, List.filter_append,
        Entries.hostDirectivesAt_eq crumbs rest, Node.hostDirectivesAt_eq (crumbs ++ [key]) value]
      cases hhost : isHostDirective key with
      | true => simp [hhost]
      | false => cases hname : expressionKey? key <;> simp [hhost]

theorem Node.hostDirectivesAt_eq : ∀ crumbs node,
    Node.hostDirectivesAt crumbs node =
      (Node.directivesAt crumbs node).filter fun v => isHostDirective v.key
  | crumbs, .map es => Entries.hostDirectivesAt_eq crumbs es
  | crumbs, .list items => Node.hostDirectivesItems_eq crumbs 0 items
  | _, .null => rfl
  | _, .bool _ => rfl
  | _, .number _ => rfl
  | _, .string _ => rfl

theorem Node.hostDirectivesItems_eq : ∀ crumbs index items,
    Node.hostDirectivesItems crumbs index items =
      (Node.directivesItems crumbs index items).filter fun v => isHostDirective v.key
  | _, _, [] => rfl
  | crumbs, index, item :: rest => by
      rw [Node.hostDirectivesItems, Node.directivesItems, List.filter_append,
        Node.hostDirectivesAt_eq _ item, Node.hostDirectivesItems_eq crumbs (index + 1) rest]

end

/-- The host directives of a document are those of its directives that have such a key. -/
theorem Entries.hostDirectives_eq (root : Entries) :
    root.hostDirectives = root.directives.filter fun v => isHostDirective v.key :=
  Entries.hostDirectivesAt_eq [] root

namespace Setting

/-- An entry of metadata has its value. -/
def MetadataExpands (s : Setting) (P : Schema → Prop) (file : String) (entry : String × Node) :
    Prop :=
  match expressionKey? entry.1, entry.2 with
  | some _, value => s.ExpressionExpands P value (some file)
  | none, .string text => s.TextExpands P text (some file)
  | none, _ => True

/-- The document of a declaration is complete: its metadata has its values, and its schema satisfies
the predicate. -/
structure DocumentExpands (s : Setting) (P : Schema → Prop) (t : TypeRef) (crumbs : Breadcrumb) :
    Prop where
  metadata : ∀ entry ∈ Entries.evaluatedEntries t.doc.metadata, s.MetadataExpands P t.file entry
  schema : t.isFunc = false → P (s.schemaAt t crumbs)

/-- The text of a host directive is expanded: the declaration that it names has its document, and a
text that is no path of the graph has its value. -/
structure DirectiveTextExpands (s : Setting) (P : Schema → Prop) (text : String)
    (crumbs : Breadcrumb) : Prop where
  document : ∀ t, s.resolver.graph.typeAt? text = some t → s.DocumentExpands P t crumbs
  expression : s.resolver.graph.ownsPath (s.resolver.graph.normalize text) = false →
    s.TextExpands P text none

/-- A directive is expanded, and the schemas that it puts into the document satisfy the predicate.
What a host directive holds in a map or a list are directives of their own. -/
def Expands (s : Setting) (P : Schema → Prop) (v : Visit) : Prop :=
  if isHostDirective v.key then
    ∀ text, v.value = .string text → s.DirectiveTextExpands P text v.breadcrumb
  else s.ExpressionExpands P v.value none

variable {s : Setting}

/-! ### From one predicate to another -/

section Imp

variable {P Q : Schema → Prop}

theorem HasValue.imp {code : String} {file : Option String}
    (h : ∀ v, s.valueOf code file = .ok v → ∀ schema ∈ s.leafSchemas v, P schema → Q schema)
    (hvalue : s.HasValue P code file) : s.HasValue Q code file := by
  obtain ⟨v, hv, hnames, hall⟩ := hvalue
  exact ⟨v, hv, hnames, fun schema hmem => h v hv schema hmem (hall schema hmem)⟩

variable (hvalue : ∀ code file v, s.valueOf code file = .ok v →
  ∀ schema ∈ s.leafSchemas v, P schema → Q schema)

include hvalue

theorem ExpressionExpands.imp {value : Node} {file : Option String}
    (h : s.ExpressionExpands P value file) : s.ExpressionExpands Q value file := by
  obtain ⟨code, hcode, h⟩ := h
  exact ⟨code, hcode, h.imp (hvalue code file)⟩

theorem TextExpands.imp {text : String} {file : Option String} (h : s.TextExpands P text file) :
    s.TextExpands Q text file := by
  unfold TextExpands at h ⊢
  cases hform : ExpressionForm.detect text with
  | explicit code | bracketed code =>
      simp only [hform] at h
      exact h.imp (hvalue code file)
  | candidate code =>
      simp only [hform] at h
      intro v hv hnull schema hmem
      exact hvalue code file v hv schema hmem (h v hv hnull schema hmem)
  | plain => trivial

theorem MetadataExpands.imp {file : String} {entry : String × Node}
    (h : s.MetadataExpands P file entry) : s.MetadataExpands Q file entry := by
  obtain ⟨key, value⟩ := entry
  unfold MetadataExpands at h ⊢
  cases hname : expressionKey? key with
  | some name =>
      simp only [hname] at h ⊢
      exact h.imp hvalue
  | none =>
      cases value with
      | string text =>
          simp only [hname] at h ⊢
          exact h.imp hvalue
      | null | bool | number | list | map => trivial

variable (hdocument : ∀ t crumbs, P (s.schemaAt t crumbs) → Q (s.schemaAt t crumbs))

include hdocument

/-- A directive that is expanded with schemas of one kind is so with those of another, if the
schemas of values and of types that are of the one are of the other. -/
theorem Expands.imp {v : Visit} (h : s.Expands P v) : s.Expands Q v := by
  unfold Expands at h ⊢
  cases hhost : isHostDirective v.key with
  | true =>
      simp only [hhost, if_true] at h ⊢
      intro text htext
      obtain ⟨hdoc, hexpression⟩ := h text htext
      refine ⟨fun t ht => ⟨fun entry hentry => ?_, fun hfunc => ?_⟩, fun howned => ?_⟩
      · exact ((hdoc t ht).metadata entry hentry).imp hvalue
      · exact hdocument t _ ((hdoc t ht).schema hfunc)
      · exact (hexpression howned).imp hvalue
  | false =>
      simp only [hhost, Bool.false_eq_true, if_false] at h ⊢
      exact h.imp hvalue

end Imp

/-! ### Expressions -/

theorem clean_evaluate_bind {b : Except ExprError Value → Pass β} (hb : ∀ r, Isolates (b r))
    (code : String) (file : Option String) :
    Clean (s.evaluate code file >>= b) ↔ Clean (b (s.valueOf code file)) :=
  clean_resolve_bind (Expr.evalText_steady (Expr.fileScope_steady ..) code) hb

theorem hasValue_iff {code : String} {file : Option String} :
    s.HasValue Schema.Sound code file ↔ ∃ v, s.valueOf code file = .ok v ∧ s.LowersCleanly v := by
  refine exists_congr fun v => and_congr_right fun _ => and_iff_right_of_imp fun h => ?_
  exact LowersCleanly.missingNames_eq_nil s v h

theorem clean_expressionDirective (key : String) (value : Node) (file : Option String)
    (crumbs : List String) :
    Clean (s.expressionDirective key value file crumbs) ↔
      s.ExpressionExpands Schema.Sound value file := by
  cases value with
  | string code =>
      have hexpands : s.ExpressionExpands Schema.Sound (.string code) file ↔
          s.HasValue Schema.Sound code file :=
        ⟨fun ⟨_, heq, h⟩ => by cases heq; exact h, fun h => ⟨code, rfl, h⟩⟩
      rw [expressionDirective, clean_evaluate_bind, hexpands, hasValue_iff]
      · cases s.valueOf code file with
        | ok v => simp [clean_lower]
        | error e => simp [not_clean_fail]
      · intro result
        cases result with
        | ok v => exact lower_isolates s v
        | error e => exact (fail_isolated crumbs key e.message).isolates
  | null | bool | number | list | map =>
      refine iff_of_false (fun h => not_clean_fail _ _ _ h) ?_
      rintro ⟨code, heq, -⟩
      cases heq

/-- What becomes of the value of a text, which may be marked as an expression. -/
def settleText (s : Setting) (marked : Bool) :
    Except ExprError Value → Pass (Except ExprError (Option Node))
  | .ok v => if marked || !v.isNullish then do return .ok (some (← s.lower v)) else return .ok none
  | .error e => if marked then return .error e else return .ok none

theorem settleText_isolates (marked : Bool) (r : Except ExprError Value) :
    Isolates (s.settleText marked r) := by
  cases r with
  | ok v =>
      simp only [settleText]
      split
      · exact (lower_isolates s v).bind fun _ => isolates_pure _
      · exact isolates_pure _
  | error e =>
      simp only [settleText]
      split
      · exact isolates_pure _
      · exact isolates_pure _

theorem expandText_of_code {text code : String} (file : Option String)
    (h : (ExpressionForm.detect text).code? = some code) :
    s.expandText text file =
      s.evaluate code file >>= s.settleText (ExpressionForm.detect text).isMarked := by
  simp only [expandText, h]
  congr 1

section Text

/-! What follows the expansion of a text, an action that records an error for a failed expansion
alone. -/

variable {b : Except ExprError (Option Node) → Pass β}

theorem clean_settleText_ok (hb : ∀ r, Isolates (b r)) (hok : ∀ found, Clean (b (.ok found)))
    (marked : Bool) (v : Value) :
    Clean (s.settleText marked (.ok v) >>= b) ↔
      (marked = true ∨ v.isNullish = false → s.LowersCleanly v) := by
  by_cases h : marked = true ∨ v.isNullish = false
  · have hif : (marked || !v.isNullish) = true := by simpa using h
    simp only [settleText, hif, if_true, bind_assoc, pure_bind, h, forall_const]
    rw [clean_bind (lower_isolates s v) fun _ => hb _, clean_lower]
    exact and_iff_left (hok _)
  · have hif : (marked || !v.isNullish) = false := by simpa using h
    simp only [settleText, hif, h, false_implies, iff_true]
    exact hok none

theorem clean_settleText_error (hok : ∀ found, Clean (b (.ok found)))
    (herror : ∀ e, ¬ Clean (b (.error e))) (marked : Bool) (e : ExprError) :
    Clean (s.settleText marked (.error e) >>= b) ↔ marked = false := by
  cases marked with
  | true => exact iff_of_false (herror e) (by decide)
  | false => exact iff_of_true (hok none) rfl

theorem clean_expandText_bind (hb : ∀ r, Isolates (b r)) (hok : ∀ found, Clean (b (.ok found)))
    (herror : ∀ e, ¬ Clean (b (.error e))) (text : String) (file : Option String) :
    Clean (s.expandText text file >>= b) ↔ s.TextExpands Schema.Sound text file := by
  have hcode {code : String} (h : (ExpressionForm.detect text).code? = some code) :
      Clean (s.expandText text file >>= b) ↔
        Clean (s.settleText (ExpressionForm.detect text).isMarked (s.valueOf code file) >>= b) := by
    rw [expandText_of_code file h, bind_assoc,
      clean_evaluate_bind fun r => (settleText_isolates _ r).bind hb]
  have hmarked {code : String} : Clean (s.settleText true (s.valueOf code file) >>= b) ↔
      s.HasValue Schema.Sound code file := by
    rw [hasValue_iff]
    cases s.valueOf code file with
    | ok v => simp [clean_settleText_ok hb hok]
    | error e => simp [clean_settleText_error hok herror]
  unfold TextExpands
  cases hform : ExpressionForm.detect text with
  | explicit code =>
      rw [hcode (by rw [hform]; rfl), hform]
      exact hmarked
  | bracketed code =>
      rw [hcode (by rw [hform]; rfl), hform]
      exact hmarked
  | candidate code =>
      rw [hcode (by rw [hform]; rfl), hform]
      cases hv : s.valueOf code file with
      | ok v => simp [clean_settleText_ok hb hok, ExpressionForm.isMarked, LowersCleanly, hv]
      | error e => simp [clean_settleText_error hok herror, ExpressionForm.isMarked, hv]
  | plain =>
      refine iff_of_true ?_ trivial
      simp only [expandText, hform]
      exact hok none

end Text

/-! ### Declarations -/

theorem clean_metadataText (file : String) (crumbs : List String) (key text : String) :
    Clean (s.metadataText file crumbs key text) ↔
      s.TextExpands Schema.Sound text (some file) := by
  refine clean_expandText_bind (fun result => ?_) (fun found => ?_) (fun e => ?_) text (some file)
  · cases result with
    | ok found => cases found <;> exact isolates_pure _
    | error e => exact (fail_isolated crumbs key e.message).isolates
  · cases found <;> exact clean_pure _
  · exact not_clean_fail _ _ _

mutual

theorem clean_expandMetadata (s : Setting) (file : String) : ∀ crumbs entries,
    Clean (s.expandMetadata file crumbs entries) ↔
      ∀ entry ∈ Entries.evaluatedEntries entries, s.MetadataExpands Schema.Sound file entry
  | _, [] => iff_of_true (clean_pure _) (by simp [Entries.evaluatedEntries])
  | crumbs, (key, value) :: rest => by
      have hothers := expandMetadata_isolates s file crumbs rest
      rw [expandMetadata, Entries.evaluatedEntries, List.forall_mem_append,
        ← clean_expandMetadata s file crumbs rest]
      cases hname : expressionKey? key with
      | some name =>
          simp only [pure_bind]
          rw [clean_both (expressionDirective_isolates key value (some file) crumbs) hothers,
            clean_expressionDirective]
          simp [MetadataExpands, hname]
      | none =>
          simp only [pure_bind]
          rw [clean_both (expandMetadataNode_isolates s file crumbs key value) hothers,
            clean_expandMetadataNode s file crumbs key value hname]

theorem clean_expandMetadataNode (s : Setting) (file : String) : ∀ crumbs key value,
    expressionKey? key = none → (Clean (s.expandMetadataNode file crumbs key value) ↔
      ∀ entry ∈ Node.evaluatedEntries key value, s.MetadataExpands Schema.Sound file entry)
  | crumbs, key, .string text, hkey => by
      rw [expandMetadataNode, clean_metadataText]
      simp [Node.evaluatedEntries, MetadataExpands, hkey]
  | crumbs, key, .map entries, _ => by
      rw [expandMetadataNode, clean_bind_pure (expandMetadata_isolates ..)]
      exact clean_expandMetadata s file (crumbs ++ [key]) entries
  | _, _, .null, _ => iff_of_true (clean_pure _) (by simp [Node.evaluatedEntries])
  | _, _, .bool _, _ => iff_of_true (clean_pure _) (by simp [Node.evaluatedEntries])
  | _, _, .number _, _ => iff_of_true (clean_pure _) (by simp [Node.evaluatedEntries])
  | _, _, .list _, _ => iff_of_true (clean_pure _) (by simp [Node.evaluatedEntries])

end

theorem clean_typeDocument (s : Setting) (t : TypeRef) (crumbs : List String) :
    Clean (s.typeDocument t crumbs) ↔ s.DocumentExpands Schema.Sound t crumbs := by
  have hmetadata := expandMetadata_isolates s t.file (crumbs ++ ["meta"]) t.doc.metadata
  have hsteady := s.resolver.typeSchema_steady t (s.isDefinedAt t crumbs)
  have hiff : s.DocumentExpands Schema.Sound t crumbs ↔
      Clean (s.expandMetadata t.file (crumbs ++ ["meta"]) t.doc.metadata) ∧
        (t.isFunc = false → (s.schemaAt t crumbs).Sound) := by
    rw [clean_expandMetadata]
    exact ⟨fun h => ⟨h.metadata, h.schema⟩, fun h => ⟨h.1, h.2⟩⟩
  rw [hiff]
  simp only [typeDocument]
  cases t.isFunc with
  | true =>
      simp only [if_true, pure_bind]
      rw [clean_bind_pure hmetadata]
      simp
  | false =>
      simp only [Bool.false_eq_true, if_false, pure_bind]
      rw [clean_bind hmetadata fun _ => (resolve_isolates hsteady).bind fun schema =>
          (render_isolated schema).isolates.bind fun _ => isolates_pure _,
        clean_resolve_bind hsteady fun schema =>
          (render_isolated schema).isolates.bind fun _ => isolates_pure _,
        clean_bind_pure (render_isolated _).isolates, clean_render]
      simp [schemaAt]

/-! ### Directives -/

theorem clean_hostReply (hs : s.host = .identity) (crumbs : List String) (key : String)
    (value : Node) : Clean (s.hostReply crumbs key value) := by
  have hask := askHost_isolated hs ⟨key, value, crumbs⟩
  have hreply : ∃ reply, Isolated (s.hostReply crumbs key value) reply
      (Record.append ⟨[], 0, [⟨key, value, crumbs⟩]⟩ .empty) := by
    cases value <;> exact ⟨_, hask.bind (isolated_pure _)⟩
  obtain ⟨reply, hreply⟩ := hreply
  rw [Clean, hreply.run_start.2]
  exact ⟨rfl, rfl⟩

/-- What takes the place of a host directive that holds a text. -/
def settleDirective (s : Setting) (crumbs : List String) (key : String) :
    Except ExprError Node → Pass Entries
  | .ok value => s.hostReply crumbs key value
  | .error e => do return [(key, ← fail crumbs key e.message)]

theorem expandHostDirective_string (crumbs : List String) (key text : String) :
    s.expandHostDirective crumbs key (.string text) =
      s.directiveText text crumbs >>= s.settleDirective crumbs key := by
  rw [expandHostDirective]
  congr 1

theorem clean_expandHostDirective_string (hs : s.host = .identity) (crumbs : List String)
    (key text : String) :
    Clean (s.expandHostDirective crumbs key (.string text)) ↔
      s.DirectiveTextExpands Schema.Sound text crumbs := by
  have hisolates (result : Except ExprError Node) :
      Isolates (s.settleDirective crumbs key result) := by
    cases result with
    | ok value => exact hostReply_isolates ⟨_, hs⟩ crumbs key value
    | error e => exact (fail_isolated crumbs key e.message).isolates.bind fun _ => isolates_pure _
  have hok (value : Node) : Clean (s.settleDirective crumbs key (.ok value)) :=
    clean_hostReply hs crumbs key value
  have herror (e : ExprError) : ¬ Clean (s.settleDirective crumbs key (.error e)) := by
    rw [settleDirective, clean_bind_pure (fail_isolated crumbs key e.message).isolates]
    exact not_clean_fail crumbs key e.message
  rw [expandHostDirective_string]
  simp only [directiveText]
  cases howned : s.resolver.graph.ownsPath (s.resolver.graph.normalize text) with
  | true =>
      have htype : s.resolver.graph.typeAt? text =
          s.resolver.graph.resolvePath (s.resolver.graph.normalize text) := by
        simp [Graph.typeAt?, howned]
      rw [if_pos rfl]
      cases hfound : s.resolver.graph.resolvePath (s.resolver.graph.normalize text) with
      | some t =>
          simp only [bind_assoc, pure_bind]
          rw [clean_bind (typeDocument_isolates s t crumbs) fun _ => hisolates _,
            clean_typeDocument, and_iff_left (hok _)]
          constructor
          · intro h
            exact ⟨fun t' ht' => by simp_all, by simp [howned]⟩
          · intro h
            exact h.document t (htype.trans hfound)
      | none =>
          refine iff_of_true (hok _) ⟨fun t ht => ?_, by simp [howned]⟩
          rw [htype, hfound] at ht
          cases ht
  | false =>
      have htype : s.resolver.graph.typeAt? text = none := by
        simp [Graph.typeAt?, howned]
      simp only [Bool.false_eq_true, if_false, bind_assoc]
      rw [clean_expandText_bind]
      · exact ⟨fun h => ⟨by simp [htype], fun _ => h⟩, fun h => h.expression howned⟩
      · intro r
        cases r with
        | ok found => exact (isolates_pure _).bind hisolates
        | error e => exact (isolates_pure _).bind hisolates
      · exact fun found => hok _
      · exact herror

mutual

/-- A map is expanded without an error exactly if every directive in it is expanded. -/
theorem clean_expandEntries (hs : s.host = .identity) : ∀ crumbs entries,
    Clean (s.expandEntries crumbs entries) ↔
      ∀ v ∈ Entries.directivesAt crumbs entries, s.Expands Schema.Sound v
  | _, [] => iff_of_true (clean_pure _) (by simp [Entries.directivesAt])
  | crumbs, (key, value) :: rest => by
      have hm : s.Memoryless := ⟨_, hs⟩
      rw [expandEntries_cons, clean_both (expandEntry_isolates hm crumbs (key, value))
        (expandEntries_isolates hm crumbs rest), clean_expandEntries hs crumbs rest,
        Entries.directivesAt, List.forall_mem_append]
      refine and_congr_left fun _ => ?_
      rw [expandEntry]
      dsimp only
      cases hhost : isHostDirective key with
      | true =>
          rw [if_pos rfl, if_pos rfl, clean_expandHostDirective hs crumbs key value,
            List.forall_mem_cons]
          simp [Expands, hhost]
      | false =>
          cases hname : expressionKey? key with
          | some name =>
              rw [if_neg Bool.false_ne_true, if_neg Bool.false_ne_true]
              dsimp only
              rw [clean_bind_pure (expressionDirective_isolates key value none crumbs),
                clean_expressionDirective]
              simp [Expands, hhost]
          | none =>
              rw [if_neg Bool.false_ne_true, if_neg Bool.false_ne_true]
              dsimp only
              rw [clean_bind_pure (expandNode_isolates hm (crumbs ++ [key]) value),
                clean_expandNode hs (crumbs ++ [key]) value]

theorem clean_expandHostDirective (hs : s.host = .identity) : ∀ crumbs key value,
    Clean (s.expandHostDirective crumbs key value) ↔
      (∀ text, value = .string text → s.DirectiveTextExpands Schema.Sound text crumbs) ∧
        ∀ v ∈ Node.directivesAt (crumbs ++ [key]) value, s.Expands Schema.Sound v
  | crumbs, key, .string text => by
      rw [clean_expandHostDirective_string hs]
      simp [Node.directivesAt]
  | crumbs, key, .map entries => by
      have hm : s.Memoryless := ⟨_, hs⟩
      rw [expandHostDirective, clean_bind (expandEntries_isolates hm _ entries)
        fun _ => hostReply_isolates hm crumbs key _, clean_expandEntries hs _ entries]
      simp [clean_hostReply hs, Node.directivesAt]
  | crumbs, key, .list items => by
      have hm : s.Memoryless := ⟨_, hs⟩
      rw [expandHostDirective, clean_bind (expandItems_isolates hm _ 0 items)
        fun _ => hostReply_isolates hm crumbs key _, clean_expandItems hs _ 0 items]
      simp [clean_hostReply hs, Node.directivesAt]
  | crumbs, key, .null =>
      iff_of_true (clean_hostReply hs crumbs key _) (by simp [Node.directivesAt])
  | crumbs, key, .bool _ =>
      iff_of_true (clean_hostReply hs crumbs key _) (by simp [Node.directivesAt])
  | crumbs, key, .number _ =>
      iff_of_true (clean_hostReply hs crumbs key _) (by simp [Node.directivesAt])

theorem clean_expandNode (hs : s.host = .identity) : ∀ crumbs node,
    Clean (s.expandNode crumbs node) ↔
      ∀ v ∈ Node.directivesAt crumbs node, s.Expands Schema.Sound v
  | crumbs, .map entries => by
      rw [expandNode, clean_bind_pure (expandEntries_isolates ⟨_, hs⟩ crumbs entries)]
      exact clean_expandEntries hs crumbs entries
  | crumbs, .list items => by
      rw [expandNode, clean_bind_pure (expandItems_isolates ⟨_, hs⟩ crumbs 0 items)]
      exact clean_expandItems hs crumbs 0 items
  | _, .null => iff_of_true (clean_pure _) (by simp [Node.directivesAt])
  | _, .bool _ => iff_of_true (clean_pure _) (by simp [Node.directivesAt])
  | _, .number _ => iff_of_true (clean_pure _) (by simp [Node.directivesAt])
  | _, .string _ => iff_of_true (clean_pure _) (by simp [Node.directivesAt])

theorem clean_expandItems (hs : s.host = .identity) : ∀ crumbs index items,
    Clean (s.expandItems crumbs index items) ↔
      ∀ v ∈ Node.directivesItems crumbs index items, s.Expands Schema.Sound v
  | _, _, [] => iff_of_true (clean_pure _) (by simp [Node.directivesItems])
  | crumbs, index, item :: rest => by
      have hm : s.Memoryless := ⟨_, hs⟩
      rw [expandItems, clean_both (expandNode_isolates hm _ item)
        (expandItems_isolates hm crumbs (index + 1) rest), clean_expandNode hs _ item,
        clean_expandItems hs crumbs (index + 1) rest, Node.directivesItems,
        List.forall_mem_append]

end

end Setting

theorem Completed.hasErrors_eq_false {c : Completed} :
    c.hasErrors = false ↔ c.diagnostics = [] ∧ c.inlineErrors = 0 := by
  simp [hasErrors]

/-- A completed document is without errors exactly if every directive that the expansion comes to
was expanded, and its schemas have no hard error that is looked for. -/
theorem Environment.hasErrors_completeMap (e : Environment) (he : e.host = .identity)
    (root : Entries) :
    (e.completeMap root).hasErrors = false ↔
      ∀ v ∈ root.directives, (e.settingFor root).Expands Schema.Sound v := by
  have hs : (e.settingFor root).host = .identity := he
  rw [Completed.hasErrors_eq_false, Entries.directives, ← Setting.clean_expandEntries hs [] root]
  rfl

end SchemaWeave
