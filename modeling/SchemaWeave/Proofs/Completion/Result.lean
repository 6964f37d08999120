import SchemaWeave.Complete.Document
import SchemaWeave.Proofs.Completion.Expansion
import SchemaWeave.Proofs.Document.Canonical
import SchemaWeave.Proofs.Text.Pieces

/-!
What a document is completed to. Whatever the directives did, the result is in canonical form: its
duplicate keys are collapsed last (`Environment.canonical_form`).

A document without directive keys passes through the expansion as it is, whatever its texts look
like: nothing is evaluated, nothing recorded, and the host is not asked
(`Setting.expandNode_undirected`). What remains of completing it is to collapse its duplicate keys,
and a completed document, which has none, is its own completion (`Environment.complete_undirected`).
-/

namespace SchemaWeave

theorem stripStart_isSome_iff {expected cs : List Char} :
    (Text.stripStart expected cs).isSome = true ↔ expected <+: cs := by
  simp only [Option.isSome_iff_exists, Text.stripStart_eq_some]
  exact exists_congr fun _ => eq_comm

/-- Keys that make a directive of their entry. -/
def IsDirectiveKey (key : String) : Prop :=
  "x-$".toList <+: key.toList ∨ "js-".toList <+: key.toList

instance : DecidablePred IsDirectiveKey := fun _ => inferInstanceAs (Decidable (_ ∨ _))

theorem isDirectiveKey_iff {key : String} :
    IsDirectiveKey key ↔ isHostDirective key = true ∨ (expressionKey? key).isSome = true := by
  simp only [IsDirectiveKey, isHostDirective, expressionKey?, Option.isSome_map,
    stripStart_isSome_iff]

/-- No key of the document, at any depth of its maps and lists, makes a directive. -/
def Node.IsUndirected (n : Node) : Prop :=
  n.Throughout fun part => ∀ key ∈ part.keys, ¬ IsDirectiveKey key

instance (n : Node) : Decidable n.IsUndirected := inferInstanceAs (Decidable (n.Throughout _))

namespace Node

variable {es : Entries} {items : List Node}

theorem isUndirected_map : (map es).IsUndirected ↔
    (∀ key ∈ es.keys, ¬ IsDirectiveKey key) ∧ ∀ entry ∈ es, entry.2.IsUndirected :=
  throughout_map

theorem isUndirected_list : (list items).IsUndirected ↔ ∀ item ∈ items, item.IsUndirected := by
  rw [IsUndirected, throughout_list]
  exact and_iff_right nofun

end Node

namespace Setting

variable {s : Setting}

theorem expandEntry_undirected {entry : String × Node} (h : ¬ IsDirectiveKey entry.1)
    (crumbs : List String) :
    s.expandEntry crumbs entry = do
      let node ← s.expandNode (crumbs ++ [entry.1]) entry.2
      return [(entry.1, node)] := by
  obtain ⟨hhost, hname⟩ := not_or.1 (mt isDirectiveKey_iff.2 h)
  rw [expandEntry, if_neg hhost, Option.not_isSome_iff_eq_none.1 hname]

theorem expandEntries_undirected {es : List (String × Node)}
    (hkeys : ∀ key ∈ Entries.keys es, ¬ IsDirectiveKey key)
    (hvalues : ∀ entry ∈ es, ∀ crumbs, s.expandNode crumbs entry.2 = pure entry.2)
    (crumbs : List String) : s.expandEntries crumbs es = pure es := by
  induction es with
  | nil => rfl
  | cons entry rest ih =>
      obtain ⟨hkey, hkeys⟩ := List.forall_mem_cons.1 hkeys
      obtain ⟨hvalue, hvalues⟩ := List.forall_mem_cons.1 hvalues
      rw [expandEntries_cons, expandEntry_undirected hkey, hvalue, ih hkeys hvalues]
      rfl

theorem expandItems_undirected {items : List Node}
    (hitems : ∀ item ∈ items, ∀ crumbs, s.expandNode crumbs item = pure item)
    (crumbs : List String) : ∀ index, s.expandItems crumbs index items = pure items := by
  induction items with
  | nil => intro _; rfl
  | cons item rest ih =>
      intro index
      obtain ⟨hitem, hrest⟩ := List.forall_mem_cons.1 hitems
      rw [expandItems, hitem, ih hrest]
      rfl

/-- Without directives a document expands to itself, at any place, and nothing is recorded. -/
theorem expandNode_undirected (s : Setting) {n : Node} (h : n.IsUndirected) :
    ∀ crumbs, s.expandNode crumbs n = pure n := by
  induction n using Node.induction with
  | map es ih =>
      intro crumbs
      obtain ⟨hkeys, hvalues⟩ := Node.isUndirected_map.1 h
      rw [expandNode, expandEntries_undirected hkeys fun e he => ih e he (hvalues e he)]
      rfl
  | list items ih =>
      intro crumbs
      have hitems := Node.isUndirected_list.1 h
      rw [expandNode, expandItems_undirected fun item hitem => ih item hitem (hitems item hitem)]
      rfl
  | null | bool | number | string => exact fun _ => rfl

end Setting

namespace Environment

/-- Without directives nothing is left to do but to collapse duplicate keys. -/
theorem completeMap_undirected (e : Environment) {root : Entries}
    (h : (Node.map root).IsUndirected) :
    e.completeMap root = ⟨.map root.mergeDuplicates, [], 0, []⟩ := by
  obtain ⟨hkeys, hvalues⟩ := Node.isUndirected_map.1 h
  have hroot : (e.settingFor root).expandEntries [] root = pure root :=
    Setting.expandEntries_undirected hkeys
      (fun entry hentry => Setting.expandNode_undirected _ (hvalues entry hentry)) []
  rw [completeMap, hroot]
  rfl

theorem completeMap_isCanonical (e : Environment) (root : Entries) :
    (e.completeMap root).document.IsCanonical :=
  Node.isCanonical_mergeDuplicates (.map _)

/-- **Collapsing duplicate keys computes a canonical form.** No map in the result holds a key twice,
at any depth and also inside lists; the documents without such maps, and no others, are left as they
are, the result itself among them; and the keys of a map stand where they first occurred. Every
document whose root is a map is completed to one in this form. -/
theorem canonical_form :
    (∀ n : Node, n.mergeDuplicates.IsCanonical ∧ (n.mergeDuplicates = n ↔ n.IsCanonical) ∧
      n.mergeDuplicates.mergeDuplicates = n.mergeDuplicates) ∧
    (∀ es : Entries, ∃ collapsed : Entries, (Node.map es).mergeDuplicates = .map collapsed ∧
      collapsed.keys = es.keys.eraseDups) ∧
    ∀ (e : Environment) (root : Entries),
      ∃ c, e.complete (.map root) = .ok c ∧ c.document.IsCanonical := by
  refine ⟨fun n => ?_, fun es => ?_, fun e root => ?_⟩
  · have hcanonical := n.isCanonical_mergeDuplicates
    exact ⟨hcanonical, Node.mergeDuplicates_eq_self_iff, hcanonical.mergeDuplicates_eq⟩
  · exact ⟨es.mergeDuplicates, rfl, Entries.keys_mergeDuplicates es⟩
  · exact ⟨e.completeMap root, rfl, e.completeMap_isCanonical root⟩

/-- **Documents without directives are left alone**: with any types, imports and host, completing
one collapses its duplicate keys and does nothing else, and the host is not asked. So a completed
document in which no directive is left is completed to itself. -/
theorem complete_undirected (e : Environment) :
    (∀ root : Entries, (Node.map root).IsUndirected →
      e.complete (.map root) = .ok ⟨(Node.map root).mergeDuplicates, [], 0, []⟩) ∧
    ∀ (first : Environment) (n : Node) (c : Completed), first.complete n = .ok c →
      c.document.IsUndirected → e.complete c.document = .ok ⟨c.document, [], 0, []⟩ := by
  refine ⟨fun root h => congrArg Except.ok (e.completeMap_undirected h), fun first n c hc h => ?_⟩
  cases n with
  | map root =>
      cases hc
      have hcanonical := first.completeMap_isCanonical root
      refine congrArg Except.ok ((e.completeMap_undirected h).trans ?_)
      exact congrArg (Completed.mk · [] 0 []) hcanonical.mergeDuplicates_eq
  | list | null | bool | number | string => cases hc

/-- Texts that look like directives, in a map that repeats a key inside a list; and a directive that
the first completion takes away. The second host refuses whatever it is asked. -/
theorem complete_undirected_lookalikes :
    let root : Entries :=
      [("a", .list [.map [("b", .string "js: schema(Pet)"), ("b", .string "x-$")]]),
        ("X-$c", .string "<app/model.Pet>")]
    let directed : Node := .map [("x-$a", .map [("b", .null), ("b", .string "js-")])]
    let identity : Environment := ⟨.empty, .identity, .default, []⟩
    let refusing : Environment := ⟨.empty, fun _ _ => .error (.timeout 5), .default, []⟩
    (Node.map root).IsUndirected ∧
      refusing.complete (.map root) = .ok ⟨(Node.map root).mergeDuplicates, [], 0, []⟩ ∧
      ∃ c, identity.complete directed = .ok c ∧ c.document.IsUndirected ∧
        refusing.complete c.document = .ok ⟨c.document, [], 0, []⟩ := by
  intro root directed identity refusing
  have hroot : (Node.map root).IsUndirected := by decide
  have hleft : (Node.map [("b", .string "js-")]).IsUndirected := by decide
  exact ⟨hroot, (complete_undirected refusing).1 root hroot, _, rfl, hleft,
    (complete_undirected refusing).2 identity directed _ rfl hleft⟩

end Environment

end SchemaWeave
