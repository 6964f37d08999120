import SchemaWeave.Complete.Document
import SchemaWeave.Proofs.Completion.Strict

/-!
What the host is asked, whatever it replies and whatever it remembers. `Asks` is the contract of an
action between two resolutions: it asks the host about the given places of the document, in this
order. It composes along `>>=`, so an expansion asks about one entry after the other. `Isolated`
says more, but of hosts without memory alone.

`Entries.innerFirst` lists the host directives of a document, each after those inside its value.
The host is asked about them in this order, once about each (`Environment.complete_asks`). It is not
asked about a directive whose text is marked as an expression and has no value, nor about anything
that an expansion puts into the document.
-/

namespace SchemaWeave

/-! ### Host directives, inside out -/

mutual

/-- The host directives that the expansion of a map at the given place comes to, each after those
inside its value; what an expression directive holds is not expanded. -/
def Entries.innerFirstAt (crumbs : Breadcrumb) : List (String × Node) → List Visit
  | [] => []
  | (key, value) :: rest =>
    (if isHostDirective key then
        Node.innerFirstAt (crumbs ++ [key]) value ++ [⟨crumbs, key, value⟩]
      else
        match expressionKey? key with
        | some _ => []
        | none => Node.innerFirstAt (crumbs ++ [key]) value) ++
      Entries.innerFirstAt crumbs rest

def Node.innerFirstAt (crumbs : Breadcrumb) : Node → List Visit
  | .map es => Entries.innerFirstAt crumbs es
  | .list items => Node.innerFirstItems crumbs 0 items
  | .null => []
  | .bool _ => []
  | .number _ => []
  | .string _ => []

/-- The host directives inside list items, the first of which has the given index. -/
def Node.innerFirstItems (crumbs : Breadcrumb) (index : Nat) : List Node → List Visit
  | [] => []
  | item :: rest =>
    Node.innerFirstAt (crumbs ++ [Nat.repr index]) item ++
      Node.innerFirstItems crumbs (index + 1) rest

end

/-- The host directives of a document, inside out. -/
def Entries.innerFirst (root : Entries) : List Visit := Entries.innerFirstAt [] root

mutual

theorem Entries.innerFirstAt_perm : ∀ crumbs es,
    (Entries.innerFirstAt crumbs es).Perm (Entries.hostDirectivesAt crumbs es)
  | _, [] => .rfl
  | crumbs, (key, value) :: rest => by
      have hvalue := Node.innerFirstAt_perm (crumbs ++ [key]) value
      rw [Entries.innerFirstAt, Entries.hostDirectivesAt]
      refine List.Perm.append ?_ (Entries.innerFirstAt_perm crumbs rest)
      cases hhost : isHostDirective key with
      | true => simpa using (List.perm_append_singleton _ _).trans (hvalue.cons _)
      | false =>
          cases hname : expressionKey? key with
          | some name => simp
          | none => simpa using hvalue

theorem Node.innerFirstAt_perm : ∀ crumbs node,
    (Node.innerFirstAt crumbs node).Perm (Node.hostDirectivesAt crumbs node)
  | crumbs, .map es => Entries.innerFirstAt_perm crumbs es
  | crumbs, .list items => Node.innerFirstItems_perm crumbs 0 items
  | _, .null => .rfl
  | _, .bool _ => .rfl
  | _, .number _ => .rfl
  | _, .string _ => .rfl

theorem Node.innerFirstItems_perm : ∀ crumbs index items,
    (Node.innerFirstItems crumbs index items).Perm (Node.hostDirectivesItems crumbs index items)
  | _, _, [] => .rfl
  | crumbs, index, item :: rest => by
      rw [Node.innerFirstItems, Node.hostDirectivesItems]
      exact (Node.innerFirstAt_perm _ item).append
        (Node.innerFirstItems_perm crumbs (index + 1) rest)

end

/-- Listing host directives inside out loses none and repeats none. -/
theorem Entries.innerFirst_perm (root : Entries) : root.innerFirst.Perm root.hostDirectives :=
  Entries.innerFirstAt_perm [] root

mutual

theorem Entries.hostDirectivesAt_sublist : ∀ crumbs es,
    (Entries.hostDirectivesAt crumbs es).Sublist (Entries.visitsAt crumbs es)
  | _, [] => .slnil
  | crumbs, (key, value) :: rest => by
      have hself : (if isHostDirective key then [(⟨crumbs, key, value⟩ : Visit)] else []).Sublist
          [⟨crumbs, key, value⟩] := by
        split
        · exact .refl _
        · exact List.nil_sublist _
      have hvalue : (if isHostDirective key || (expressionKey? key).isNone then
          Node.hostDirectivesAt (crumbs ++ [key]) value else []).Sublist
          (Node.visitsAt (crumbs ++ [key]) value) := by
        split
        · exact Node.hostDirectivesAt_sublist (crumbs ++ [key]) value
        · exact List.nil_sublist _
      exact (hself.append hvalue).append (Entries.hostDirectivesAt_sublist crumbs rest)

theorem Node.hostDirectivesAt_sublist : ∀ crumbs node,
    (Node.hostDirectivesAt crumbs node).Sublist (Node.visitsAt crumbs node)
  | crumbs, .map es => Entries.hostDirectivesAt_sublist crumbs es
  | crumbs, .list items => Node.hostDirectivesItems_sublist crumbs 0 items
  | _, .null => .slnil
  | _, .bool _ => .slnil
  | _, .number _ => .slnil
  | _, .string _ => .slnil

theorem Node.hostDirectivesItems_sublist : ∀ crumbs index items,
    (Node.hostDirectivesItems crumbs index items).Sublist (Node.visitsItems crumbs index items)
  | _, _, [] => .slnil
  | crumbs, index, item :: rest =>
      (Node.hostDirectivesAt_sublist _ item).append
        (Node.hostDirectivesItems_sublist crumbs (index + 1) rest)

end

/-- The listed directives are entries of the document, and their breadcrumbs are where a walk
through the document finds them. -/
theorem Entries.innerFirst_subset (root : Entries) : root.innerFirst ⊆ root.visits := fun _ h =>
  (Entries.hostDirectivesAt_sublist [] root).mem (root.innerFirst_perm.mem_iff.1 h)

/-! ### Actions that do not ask -/

variable {α β : Type}

/-- The action leaves the host alone. -/
def Silent (a : Pass α) : Prop := ∀ p, (a.run p).2.calls = p.calls

theorem silent_pure (x : α) : Silent (pure x : Pass α) := fun _ => rfl

theorem Silent.bind {a : Pass α} {b : α → Pass β} (ha : Silent a) (hb : ∀ x, Silent (b x)) :
    Silent (a >>= b) := fun p => (hb _ _).trans (ha p)

namespace Setting

theorem silent_resolve (action : Resolving α) : Silent (resolve action) := fun _ => rfl

theorem silent_render (schema : Schema) : Silent (render schema) := by
  intro p
  cases hhard : schema.containsHardError <;> simp [render, hhard] <;> rfl

theorem silent_fail (crumbs : List String) (key message : String) :
    Silent (fail crumbs key message) := fun _ => rfl

variable {s : Setting}

theorem silent_evaluate (code : String) (file : Option String) : Silent (s.evaluate code file) :=
  silent_resolve _

mutual

theorem silent_lower (s : Setting) : ∀ v, Silent (s.lower v)
  | .map entries => (silent_lowerEntries s entries).bind fun _ => silent_pure _
  | .list items => (silent_lowerItems s items).bind fun _ => silent_pure _
  | .schema schema => silent_render schema
  | .null => silent_pure _
  | .bool _ => silent_pure _
  | .number _ => silent_pure _
  | .string _ => silent_pure _
  | .type _ => (silent_resolve _).bind silent_render
  | .package .. => (silent_resolve _).bind silent_render
  | .function _ => (silent_resolve _).bind silent_render
  | .missing _ => (silent_resolve _).bind silent_render

theorem silent_lowerItems (s : Setting) : ∀ items, Silent (s.lowerItems items)
  | [] => silent_pure _
  | item :: rest => (silent_lower s item).bind fun _ =>
      (silent_lowerItems s rest).bind fun _ => silent_pure _

theorem silent_lowerEntries (s : Setting) : ∀ entries, Silent (s.lowerEntries entries)
  | [] => silent_pure _
  | (_, v) :: rest => (silent_lower s v).bind fun _ =>
      (silent_lowerEntries s rest).bind fun _ => silent_pure _

end

theorem silent_settleText (marked : Bool) (r : Except ExprError Value) :
    Silent (s.settleText marked r) := by
  cases r with
  | ok v =>
      simp only [settleText]
      split
      · exact (silent_lower s v).bind fun _ => silent_pure _
      · exact silent_pure _
  | error e =>
      simp only [settleText]
      split
      · exact silent_pure _
      · exact silent_pure _

theorem silent_expandText (text : String) (file : Option String) :
    Silent (s.expandText text file) := by
  cases hcode : (ExpressionForm.detect text).code? with
  | none =>
      simp only [expandText, hcode]
      exact silent_pure _
  | some code =>
      rw [expandText_of_code file hcode]
      exact (silent_evaluate code file).bind (silent_settleText _)

theorem silent_expressionDirective (key : String) (value : Node) (file : Option String)
    (crumbs : List String) : Silent (s.expressionDirective key value file crumbs) := by
  cases value with
  | string code =>
      refine (silent_evaluate code file).bind fun result => ?_
      cases result with
      | ok v => exact silent_lower s v
      | error e => exact silent_fail crumbs key e.message
  | null | bool | number | list | map => exact silent_fail crumbs key _

theorem silent_metadataText (file : String) (crumbs : List String) (key text : String) :
    Silent (s.metadataText file crumbs key text) := by
  refine (silent_expandText text (some file)).bind fun result => ?_
  cases result with
  | ok found => cases found <;> exact silent_pure _
  | error e => exact silent_fail crumbs key e.message

mutual

theorem silent_expandMetadata (s : Setting) (file : String) : ∀ crumbs entries,
    Silent (s.expandMetadata file crumbs entries)
  | _, [] => silent_pure _
  | crumbs, (key, value) :: rest => by
      rw [expandMetadata]
      cases expressionKey? key with
      | some name =>
          simp only [pure_bind]
          exact (silent_expressionDirective key value (some file) crumbs).bind fun _ =>
            (silent_expandMetadata s file crumbs rest).bind fun _ => silent_pure _
      | none =>
          simp only [pure_bind]
          exact (silent_expandMetadataNode s file crumbs key value).bind fun _ =>
            (silent_expandMetadata s file crumbs rest).bind fun _ => silent_pure _

theorem silent_expandMetadataNode (s : Setting) (file : String) : ∀ crumbs key value,
    Silent (s.expandMetadataNode file crumbs key value)
  | crumbs, key, .string text => silent_metadataText file crumbs key text
  | crumbs, key, .map entries =>
      (silent_expandMetadata s file (crumbs ++ [key]) entries).bind fun _ => silent_pure _
  | _, _, .null => silent_pure _
  | _, _, .bool _ => silent_pure _
  | _, _, .number _ => silent_pure _
  | _, _, .list _ => silent_pure _

end

theorem silent_typeDocument (s : Setting) (t : TypeRef) (crumbs : List String) :
    Silent (s.typeDocument t crumbs) := by
  refine (silent_expandMetadata s t.file (crumbs ++ ["meta"]) t.doc.metadata).bind fun _ => ?_
  dsimp only
  split
  · exact silent_pure _
  · exact (silent_resolve _).bind fun schema => (silent_render schema).bind fun _ => silent_pure _

/-- What stands in the text of a host directive is not asked about: neither the document of a
declaration nor the value of an expression is expanded further. -/
theorem silent_directiveText (text : String) (crumbs : List String) :
    Silent (s.directiveText text crumbs) := by
  simp only [directiveText]
  split
  · cases s.resolver.graph.resolvePath (s.resolver.graph.normalize text) with
    | some t => exact (silent_typeDocument s t crumbs).bind fun _ => silent_pure _
    | none => exact silent_pure _
  · refine (silent_expandText text none).bind fun result => ?_
    cases result <;> exact silent_pure _

end Setting

/-! ### Actions that ask -/

/-- Where the directive stands that a call is about. -/
def HostCall.place (call : HostCall) : Breadcrumb × String := (call.breadcrumb, call.key)

/-- Where an entry stands. -/
def Visit.place (v : Visit) : Breadcrumb × String := (v.breadcrumb, v.key)

/-- Between two resolutions the action asks the host about these places, in this order. -/
def Asks (a : Pass α) (places : List (Breadcrumb × String)) : Prop :=
  ∀ p, p.Settled → (a.run p).2.Settled ∧
    (a.run p).2.calls.map HostCall.place = p.calls.map HostCall.place ++ places

theorem asks_pure (x : α) : Asks (pure x : Pass α) [] :=
  fun _ hp => ⟨hp, (List.append_nil _).symm⟩

theorem Asks.bind {a : Pass α} {b : α → Pass β} {places places' : List (Breadcrumb × String)}
    (ha : Asks a places) (hb : ∀ x, Asks (b x) places') : Asks (a >>= b) (places ++ places') := by
  intro p hp
  obtain ⟨hsettled, hcalls⟩ := ha p hp
  obtain ⟨hsettled', hcalls'⟩ := hb (a.run p).1 (a.run p).2 hsettled
  refine ⟨hsettled', ?_⟩
  rw [← List.append_assoc, ← hcalls]
  exact hcalls'

theorem Asks.map {a : Pass α} {places : List (Breadcrumb × String)} (ha : Asks a places)
    (f : α → β) : Asks (a >>= fun x => pure (f x)) places := by
  have h := ha.bind fun x => asks_pure (f x)
  rwa [List.append_nil] at h

theorem Silent.asks {a : Pass α} (h : Silent a) (ha : Isolates a) : Asks a [] := by
  intro p hp
  obtain ⟨v, hv, hrun⟩ := ha.isolated p hp
  refine ⟨?_, by rw [h p, List.append_nil]⟩
  rw [hrun]
  exact hv

/-- After an action that does not ask, its answer decides what is asked. -/
theorem Silent.asks_bind {a : Pass α} {b : α → Pass β} {places : List (Breadcrumb × String)}
    (h : Silent a) (ha : Isolates a) (hb : Asks (b (a.run .start).1) places) :
    Asks (a >>= b) places := by
  intro p hp
  obtain ⟨v, hv, hrun⟩ := ha.isolated p hp
  obtain ⟨hsettled, hcalls⟩ := hb (a.run p).2 (by rw [hrun]; exact hv)
  have hanswer : (a.run p).1 = (a.run .start).1 := by rw [hrun]
  have hall : (a >>= b).run p = (b (a.run .start).1).run (a.run p).2 := by
    rw [← hanswer]
    rfl
  rw [hall]
  exact ⟨hsettled, by rw [hcalls, h p]⟩

namespace Setting

variable {s : Setting}

theorem askHost_asks (s : Setting) (call : HostCall) : Asks (s.askHost call) [call.place] := by
  refine fun p hp => ⟨hp, ?_⟩
  have hrun : ((s.askHost call).run p).2.calls = p.calls ++ [call] := rfl
  rw [hrun, List.map_append]
  rfl

theorem fail_asks (crumbs : List String) (key message : String) :
    Asks (fail crumbs key message) [] :=
  (silent_fail crumbs key message).asks (fail_isolated crumbs key message).isolates

theorem expressionDirective_asks (key : String) (value : Node) (file : Option String)
    (crumbs : List String) : Asks (s.expressionDirective key value file crumbs) [] :=
  (silent_expressionDirective key value file crumbs).asks
    (expressionDirective_isolates key value file crumbs)

/-- Whatever the host replies, it is asked once. -/
theorem hostReply_asks (s : Setting) (crumbs : List String) (key : String) (value : Node) :
    Asks (s.hostReply crumbs key value) [(crumbs, key)] := by
  rw [← List.append_nil [(crumbs, key)]]
  refine (askHost_asks s ⟨key, value, crumbs⟩).bind fun result => ?_
  cases result with
  | ok node => cases node <;> exact asks_pure _
  | error e => exact (fail_asks crumbs key e.message).map _

/-! ### Directives that hold a text -/

/-- The value of a host directive is a text that is marked as an expression and has no value. A text
that is a path of the graph is no expression. -/
def fails (s : Setting) : Node → Bool
  | .string text =>
    let form := ExpressionForm.detect text
    !s.resolver.graph.ownsPath (s.resolver.graph.normalize text) && form.isMarked &&
      form.code?.any fun code => !(s.valueOf code none).isOk
  | .null | .bool _ | .number _ | .list _ | .map _ => false

theorem settleText_isOk (marked : Bool) (r : Except ExprError Value) :
    ((s.settleText marked r).run .start).1.isOk = (r.isOk || !marked) := by
  cases r with
  | ok v =>
      simp only [settleText]
      split <;> rfl
  | error e => cases marked <;> rfl

theorem expandText_isOk (text : String) (file : Option String) :
    ((s.expandText text file).run .start).1.isOk =
      !((ExpressionForm.detect text).isMarked &&
        (ExpressionForm.detect text).code?.any fun code => !(s.valueOf code file).isOk) := by
  cases hcode : (ExpressionForm.detect text).code? with
  | none =>
      simp only [expandText, hcode, Option.any_none, Bool.and_false]
      rfl
  | some code =>
      rw [expandText_of_code file hcode,
        ((evaluate_isolates code file).run_bind (settleText_isolates _ _)).1, settleText_isOk,
        Option.any_some, Bool.not_and, Bool.not_not, Bool.or_comm]
      rfl

theorem directiveText_isOk (text : String) (crumbs : List String) :
    ((s.directiveText text crumbs).run .start).1.isOk = !s.fails (.string text) := by
  simp only [directiveText, fails]
  cases s.resolver.graph.ownsPath (s.resolver.graph.normalize text) with
  | true =>
      rw [if_pos rfl]
      cases s.resolver.graph.resolvePath (s.resolver.graph.normalize text) <;> rfl
  | false =>
      rw [if_neg Bool.false_ne_true, Bool.not_false, Bool.true_and, ← expandText_isOk,
        ((expandText_isolates text none).run_bind ?_).1]
      · cases ((s.expandText text none).run .start).1 <;> rfl
      · cases ((s.expandText text none).run .start).1 <;> exact isolates_pure _

/-- What the host is asked about the given directives: one that fails is left out. -/
def asked (s : Setting) (vs : List Visit) : List (Breadcrumb × String) :=
  (vs.filter fun v => !s.fails v.value).map Visit.place

theorem asked_append (vs others : List Visit) :
    s.asked (vs ++ others) = s.asked vs ++ s.asked others := by
  simp [asked]

theorem asked_singleton (v : Visit) (h : s.fails v.value = false) : s.asked [v] = [v.place] := by
  simp [asked, h]

theorem asked_singleton_of_fails (v : Visit) (h : s.fails v.value = true) : s.asked [v] = [] := by
  simp [asked, h]

theorem expandHostDirective_string_asks (s : Setting) (crumbs : List String) (key text : String) :
    Asks (s.expandHostDirective crumbs key (.string text))
      (s.asked [⟨crumbs, key, .string text⟩]) := by
  have hfails : s.fails (.string text) = !((s.directiveText text crumbs).run .start).1.isOk := by
    rw [directiveText_isOk, Bool.not_not]
  rw [expandHostDirective_string]
  refine (silent_directiveText text crumbs).asks_bind (directiveText_isolates s text crumbs) ?_
  cases hanswer : ((s.directiveText text crumbs).run .start).1 with
  | ok value =>
      rw [hanswer] at hfails
      rw [asked_singleton ⟨crumbs, key, .string text⟩ hfails]
      exact hostReply_asks s crumbs key value
  | error e =>
      rw [hanswer] at hfails
      rw [asked_singleton_of_fails ⟨crumbs, key, .string text⟩ hfails]
      exact (fail_asks crumbs key e.message).map _

/-! ### The walk -/

mutual

/-- The expansion of a map asks about its host directives, inside out. -/
theorem expandEntries_asks (s : Setting) : ∀ crumbs entries,
    Asks (s.expandEntries crumbs entries) (s.asked (Entries.innerFirstAt crumbs entries))
  | _, [] => asks_pure _
  | crumbs, (key, value) :: rest => by
      rw [expandEntries_cons, Entries.innerFirstAt, asked_append]
      refine Asks.bind ?_ fun here => (expandEntries_asks s crumbs rest).map _
      rw [expandEntry]
      dsimp only
      cases hhost : isHostDirective key with
      | true =>
          rw [if_pos rfl, if_pos rfl]
          exact expandHostDirective_asks s crumbs key value
      | false =>
          rw [if_neg Bool.false_ne_true, if_neg Bool.false_ne_true]
          cases hname : expressionKey? key with
          | some name => exact (expressionDirective_asks key value none crumbs).map _
          | none => exact (expandNode_asks s (crumbs ++ [key]) value).map _

theorem expandHostDirective_asks (s : Setting) : ∀ crumbs key value,
    Asks (s.expandHostDirective crumbs key value)
      (s.asked (Node.innerFirstAt (crumbs ++ [key]) value ++ [⟨crumbs, key, value⟩]))
  | crumbs, key, .string text => expandHostDirective_string_asks s crumbs key text
  | crumbs, key, .map entries => by
      rw [asked_append, asked_singleton _ rfl]
      exact (expandEntries_asks s (crumbs ++ [key]) entries).bind fun inner =>
        hostReply_asks s crumbs key (.map inner)
  | crumbs, key, .list items => by
      rw [asked_append, asked_singleton _ rfl]
      exact (expandItems_asks s (crumbs ++ [key]) 0 items).bind fun inner =>
        hostReply_asks s crumbs key (.list inner)
  | crumbs, key, .null => hostReply_asks s crumbs key _
  | crumbs, key, .bool _ => hostReply_asks s crumbs key _
  | crumbs, key, .number _ => hostReply_asks s crumbs key _

theorem expandNode_asks (s : Setting) : ∀ crumbs node,
    Asks (s.expandNode crumbs node) (s.asked (Node.innerFirstAt crumbs node))
  | crumbs, .map entries => (expandEntries_asks s crumbs entries).map _
  | crumbs, .list items => (expandItems_asks s crumbs 0 items).map _
  | _, .null => asks_pure _
  | _, .bool _ => asks_pure _
  | _, .number _ => asks_pure _
  | _, .string _ => asks_pure _

theorem expandItems_asks (s : Setting) : ∀ crumbs index items,
    Asks (s.expandItems crumbs index items) (s.asked (Node.innerFirstItems crumbs index items))
  | _, _, [] => asks_pure _
  | crumbs, index, item :: rest => by
      rw [expandItems, Node.innerFirstItems, asked_append]
      exact (expandNode_asks s (crumbs ++ [Nat.repr index]) item).bind fun _ =>
        (expandItems_asks s crumbs (index + 1) rest).map _

end

end Setting

namespace Environment

/-- **The host is asked about every directive once, inside out.** Whatever the host replies, the
calls made while a document is completed are about its host directives, each after those inside its
value, in document order; only those are left out whose text is marked as an expression and has no
value. The host directives are those directives that the expansion comes to with such a key, and
each stands in the document where the call says. A document that is not a map is refused. -/
theorem complete_asks (e : Environment) (document : Node) :
    match e.complete document with
    | .ok c => ∃ root : Entries, document = .map root ∧
        root.innerFirst.Perm (root.directives.filter fun v => isHostDirective v.key) ∧
        root.innerFirst ⊆ root.visits ∧
        c.calls.map HostCall.place = (root.innerFirst.filter fun v =>
          !(e.settingFor root).fails v.value).map Visit.place
    | .error _ => ∀ root, document ≠ .map root := by
  cases document with
  | map root =>
      have h := (e.settingFor root).expandEntries_asks [] root .start Progress.settled_start
      have hlisted := Entries.innerFirst_perm root
      rw [Entries.hostDirectives_eq] at hlisted
      exact ⟨root, rfl, hlisted, Entries.innerFirst_subset root, h.2⟩
  | null | bool | number | string | list => exact fun root h => by cases h

/-- A host that always fails is asked about the outer directive all the same. -/
example :
    let e : Environment := ⟨.empty, .ofReply fun _ => .error (.timeout 5), .default, []⟩
    let inner := Node.map [("x-$b", .string "text"), ("js-c", .map [("x-$d", .null)])]
    (e.completeMap [("x-$a", .map [("k", .list [inner])]), ("x-$e", .string "js: ["),
        ("x-$f", .null)]).calls.map HostCall.place =
      [(["x-$a", "k", "0"], "x-$b"), ([], "x-$a"), ([], "x-$f")] := by
  decide +kernel

end Environment

end SchemaWeave
