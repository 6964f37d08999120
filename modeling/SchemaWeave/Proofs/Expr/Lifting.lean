import Mathlib.Data.List.Induction
import SchemaWeave.Proofs.Document.Pointwise
import SchemaWeave.Proofs.Expr.Spread

/-!
Documents as values, and back. A document may hold a key twice and a value may not, so lifting a
document collapses its maps: not by merging, as documents do, but each key keeps its first place and
takes its last value, and what stood there before is gone with everything in it
(`Bindings.insertAll_nil`). Lowering checks nothing. The two together replace a document by
`Node.lastWins`, and from the side of values they change nothing (`Value.lift_and_lower`).
-/

namespace SchemaWeave

theorem eraseDups_concat (ks : List String) (k : String) :
    (ks ++ [k]).eraseDups = if k ∈ ks then ks.eraseDups else ks.eraseDups ++ [k] := by
  rw [List.eraseDups_append]
  by_cases hk : k ∈ ks
  · simp [List.removeAll, hk]
  · simp [List.removeAll, hk, List.eraseDups_cons]

theorem nodup_eraseDups (ks : List String) : ks.eraseDups.Nodup := by
  induction ks using List.reverseRecOn with
  | nil => exact List.nodup_nil
  | append_singleton ks k ih =>
      rw [eraseDups_concat]
      split
      · exact ih
      · next hk =>
          refine List.nodup_append.2 ⟨ih, List.nodup_singleton k, fun l hl l' hl' => ?_⟩
          rw [List.mem_singleton.1 hl']
          exact ne_of_mem_of_not_mem (List.mem_eraseDups.1 hl) hk

section LastValues

variable {α β : Type} {es : List (String × α)}

/-- Each key in the place of its first entry, with the value of its last one. -/
def lastValues (es : List (String × α)) : List (String × α) :=
  (es.map Prod.fst).eraseDups.filterMap fun key => es.findRev? (·.1 == key)

theorem mem_of_mem_lastValues {entry : String × α} (h : entry ∈ lastValues es) : entry ∈ es := by
  obtain ⟨key, -, hfind⟩ := List.mem_filterMap.1 h
  rw [List.findRev?_eq_find?_reverse] at hfind
  exact List.mem_reverse.1 (List.mem_of_find?_eq_some hfind)

theorem keys_lastValues (es : List (String × α)) :
    (lastValues es).map Prod.fst = (es.map Prod.fst).eraseDups := by
  have hsome : (es.map Prod.fst).eraseDups.filterMap some = (es.map Prod.fst).eraseDups :=
    List.filterMap_some
  rw [lastValues, List.map_filterMap]
  refine (List.filterMap_congr fun key hkey => ?_).trans hsome
  obtain ⟨entry, hentry, rfl⟩ := List.mem_map.1 (List.mem_eraseDups.1 hkey)
  have hfound : (es.reverse.find? (·.1 == entry.1)).isSome :=
    List.find?_isSome.2 ⟨entry, List.mem_reverse.2 hentry, beq_self_eq_true _⟩
  obtain ⟨last, hlast⟩ := Option.isSome_iff_exists.1 hfound
  have hsame := List.find?_some hlast
  rw [List.findRev?_eq_find?_reverse, hlast, Option.map_some, beq_iff_eq.1 hsame]

theorem lastValues_map (f : α → β) (es : List (String × α)) :
    lastValues (es.map fun entry => (entry.1, f entry.2)) =
      (lastValues es).map fun entry => (entry.1, f entry.2) := by
  simp only [lastValues, List.map_filterMap, List.findRev?_eq_find?_reverse, ← List.map_reverse,
    List.find?_map, List.map_map]
  rfl

/-- Entries are determined by their keys and by what is found under these. -/
theorem filterMap_keys {find? : String → Option (String × α)}
    (h : ∀ entry ∈ es, find? entry.1 = some entry) : (es.map Prod.fst).filterMap find? = es := by
  rw [List.filterMap_map]
  exact (List.filterMap_congr h).trans List.filterMap_some

theorem find?_of_nodup (hkeys : (es.map Prod.fst).Nodup) {entry : String × α} (h : entry ∈ es) :
    es.find? (·.1 == entry.1) = some entry := by
  induction es with
  | nil => cases h
  | cons first rest ih =>
      obtain ⟨hnew, hrest⟩ := List.nodup_cons.1 hkeys
      rcases List.mem_cons.1 h with rfl | h
      · exact List.find?_cons_of_pos (beq_self_eq_true _)
      · have hne : first.1 ≠ entry.1 := fun heq => hnew (heq ▸ List.mem_map_of_mem h)
        rw [List.find?_cons, beq_eq_false_iff_ne.2 hne]
        exact ih hrest h

/-- Distinct keys keep their values. -/
theorem lastValues_of_nodup (hkeys : (es.map Prod.fst).Nodup) : lastValues es = es := by
  have hreverse : (es.reverse.map Prod.fst).Nodup := by
    rw [List.map_reverse]
    exact List.nodup_reverse.2 hkeys
  rw [lastValues, Entries.eraseDups_of_nodup hkeys]
  refine filterMap_keys fun entry hentry => ?_
  rw [List.findRev?_eq_find?_reverse]
  exact find?_of_nodup hreverse (List.mem_reverse.2 hentry)

end LastValues

namespace Bindings

variable {bindings entries : Bindings} {key : String} {value : Value}

theorem insertAll_concat (before entries : Bindings) (key : String) (value : Value) :
    insertAll before (entries ++ [(key, value)]) = insert key value (insertAll before entries) :=
  List.foldl_append

theorem mem_insert (hkeys : (bindings.map Prod.fst).Nodup) {entry : String × Value}
    (h : entry ∈ insert key value bindings) :
    entry = (key, value) ∨ entry ∈ bindings ∧ entry.1 ≠ key := by
  induction bindings with
  | nil => exact .inl (List.mem_singleton.1 h)
  | cons first rest ih =>
      obtain ⟨k, v⟩ := first
      obtain ⟨hnew, hrest⟩ := List.nodup_cons.1 hkeys
      rw [insert] at h
      split at h
      · next hk =>
          subst hk
          refine (List.mem_cons.1 h).imp_right fun h => ⟨List.mem_cons_of_mem _ h, ?_⟩
          exact ne_of_mem_of_not_mem (List.mem_map_of_mem h) hnew
      · next hk =>
          rcases List.mem_cons.1 h with rfl | h
          · exact .inr ⟨List.mem_cons_self, hk⟩
          · exact (ih hrest h).imp_right fun h => ⟨List.mem_cons_of_mem _ h.1, h.2⟩

theorem keys_insertAll_nil (entries : Bindings) :
    (insertAll [] entries).map Prod.fst = (entries.map Prod.fst).eraseDups := by
  induction entries using List.reverseRecOn with
  | nil => rfl
  | append_singleton entries entry ih =>
      obtain ⟨key, value⟩ := entry
      rw [insertAll_concat, keys_insert, ih, List.map_append, List.map_singleton, eraseDups_concat]
      simp only [List.mem_eraseDups]

/-- What is collected is the last entry under its key. -/
theorem findRev?_of_mem_insertAll {entry : String × Value} (h : entry ∈ insertAll [] entries) :
    entries.findRev? (·.1 == entry.1) = some entry := by
  induction entries using List.reverseRecOn with
  | nil => cases h
  | append_singleton entries last ih =>
      obtain ⟨key, value⟩ := last
      rw [insertAll_concat] at h
      rw [List.findRev?_eq_find?_reverse, List.reverse_append]
      have hnil : (([] : Bindings).map Prod.fst).Nodup := List.nodup_nil
      rcases mem_insert (nodup_insertAll entries hnil) h with rfl | ⟨h, hne⟩
      · exact List.find?_cons_of_pos (beq_self_eq_true _)
      · rw [List.reverse_singleton, List.singleton_append, List.find?_cons,
          beq_eq_false_iff_ne.2 (Ne.symm hne), ← List.findRev?_eq_find?_reverse]
        exact ih h

/-- **Entries that are inserted one after the other** leave each key in the place of its first
entry, with the value of its last one. -/
theorem insertAll_nil (entries : Bindings) : insertAll [] entries = lastValues entries := by
  rw [lastValues, ← keys_insertAll_nil]
  exact (filterMap_keys fun _ => findRev?_of_mem_insertAll).symm

end Bindings

namespace Node

variable {n : Node}

mutual

/-- The document in which, in every map, each key stands in the place of its first entry and has the
value of its last one. -/
def lastWins : Node → Node
  | .map es => .map (lastValues (lastWinsEntries es))
  | .list items => .list (lastWinsItems items)
  | .null => .null
  | .bool b => .bool b
  | .number n => .number n
  | .string s => .string s

def lastWinsItems : List Node → List Node
  | [] => []
  | item :: rest => lastWins item :: lastWinsItems rest

def lastWinsEntries : List (String × Node) → List (String × Node)
  | [] => []
  | (key, value) :: rest => (key, lastWins value) :: lastWinsEntries rest

end

theorem lastWinsItems_eq (items : List Node) : lastWinsItems items = items.map lastWins := by
  induction items with
  | nil => rfl
  | cons item rest ih => rw [lastWinsItems, ih, List.map_cons]

theorem lastWinsEntries_eq (es : List (String × Node)) :
    lastWinsEntries es = es.map fun entry => (entry.1, lastWins entry.2) := by
  induction es with
  | nil => rfl
  | cons entry rest ih => rw [lastWinsEntries, ih, List.map_cons]

theorem lastWins_map (es : List (String × Node)) :
    lastWins (.map es) = .map ((lastValues es).map fun entry => (entry.1, lastWins entry.2)) := by
  rw [lastWins, lastWinsEntries_eq, lastValues_map]

theorem lastWins_list (items : List Node) :
    lastWins (.list items) = .list (items.map lastWins) := by
  rw [lastWins, lastWinsItems_eq]

/-- The first map under the key is not merged with the last one but dropped. -/
example :
    lastWins (.map [("a", .map [("x", .null)]), ("b", .bool true),
      ("a", .map [("y", .null), ("y", .string "z")])]) =
      .map [("a", .map [("y", .string "z")]), ("b", .bool true)] := by rfl

theorem IsCanonical.lastWins_eq (h : n.IsCanonical) : n.lastWins = n := by
  induction n using Node.induction with
  | map es ih =>
      obtain ⟨hkeys, hvalues⟩ := isCanonical_map.1 h
      have hsame : ∀ entry ∈ es, (entry.1, entry.2.lastWins) = id entry :=
        fun entry hentry => Prod.ext rfl (ih entry hentry (hvalues entry hentry))
      rw [lastWins_map, lastValues_of_nodup hkeys, List.map_congr_left hsame, List.map_id]
  | list items ih =>
      have hsame : ∀ item ∈ items, item.lastWins = id item :=
        fun item hitem => ih item hitem (isCanonical_list.1 h item hitem)
      rw [lastWins_list, List.map_congr_left hsame, List.map_id]
  | null | bool | number | string => rfl

end Node

namespace Value

variable {v : Value}

/-- Plain data: null, booleans, numbers, texts, lists of plain data, and maps of plain data in which
no key occurs twice. -/
inductive IsData : Value → Prop
  | null : IsData .null
  | bool (b : Bool) : IsData (.bool b)
  | number (x : Number) : IsData (.number x)
  | string (text : String) : IsData (.string text)
  | list {items : List Value} (hitems : ∀ item ∈ items, IsData item) : IsData (.list items)
  | map {entries : Bindings} (hkeys : (entries.map Prod.fst).Nodup)
    (hvalues : ∀ entry ∈ entries, IsData entry.2) : IsData (.map entries)

/-! ### Lifting -/

theorem ofNodes_eq (items : List Node) : ofNodes items = items.map ofNode := by
  induction items with
  | nil => rfl
  | cons item rest ih => rw [ofNodes, ih, List.map_cons]

theorem ofEntries_eq (es : List (String × Node)) : ∀ before : Bindings,
    ofEntries before es =
      Bindings.insertAll before (es.map fun entry => (entry.1, ofNode entry.2)) := by
  induction es with
  | nil => intro before; rfl
  | cons entry rest ih => intro before; exact ih _

/-- A map is lifted to the last values of its keys. -/
theorem ofNode_map (es : List (String × Node)) :
    ofNode (.map es) = .map ((lastValues es).map fun entry => (entry.1, ofNode entry.2)) := by
  rw [ofNode, ofEntries_eq, Bindings.insertAll_nil, lastValues_map]

theorem ofNode_list (items : List Node) : ofNode (.list items) = .list (items.map ofNode) := by
  rw [ofNode, ofNodes_eq]

/-- What is lifted is plain data. -/
theorem isData_ofNode (n : Node) : (ofNode n).IsData := by
  induction n using Node.induction with
  | map es ih =>
      rw [ofNode_map]
      refine .map ?_ (List.forall_mem_map.2 fun entry hentry => ?_)
      · rw [← lastValues_map, ← Bindings.insertAll_nil]
        exact Bindings.nodup_insertAll _ List.nodup_nil
      · exact ih entry (mem_of_mem_lastValues hentry)
  | list items ih =>
      rw [ofNode_list]
      exact .list (List.forall_mem_map.2 ih)
  | null => exact .null
  | bool b => exact .bool b
  | number x => exact .number x
  | string text => exact .string text

/-! ### Lowering -/

theorem toNodes?_map {items : List Node} {f : Node → Node}
    (h : ∀ item ∈ items, (ofNode item).toNode? = some (f item)) :
    toNodes? (items.map ofNode) = some (items.map f) := by
  induction items with
  | nil => rfl
  | cons item rest ih =>
      obtain ⟨hitem, hrest⟩ := List.forall_mem_cons.1 h
      rw [List.map_cons, toNodes?, hitem, ih hrest]
      rfl

theorem toEntries?_map {es : List (String × Node)} {f : Node → Node}
    (h : ∀ entry ∈ es, (ofNode entry.2).toNode? = some (f entry.2)) :
    toEntries? (es.map fun entry => (entry.1, ofNode entry.2)) =
      some (es.map fun entry => (entry.1, f entry.2)) := by
  induction es with
  | nil => rfl
  | cons entry rest ih =>
      obtain ⟨hentry, hrest⟩ := List.forall_mem_cons.1 h
      rw [List.map_cons, toEntries?, hentry, ih hrest]
      rfl

/-- What was lifted is lowered, to the document with the last values. -/
theorem toNode?_ofNode (n : Node) : (ofNode n).toNode? = some n.lastWins := by
  induction n using Node.induction with
  | map es ih =>
      have hvalues : ∀ entry ∈ lastValues es, (ofNode entry.2).toNode? = some entry.2.lastWins :=
        fun entry hentry => ih entry (mem_of_mem_lastValues hentry)
      rw [ofNode_map, toNode?, toEntries?_map hvalues, Node.lastWins_map, Option.map_some]
  | list items ih =>
      rw [ofNode_list, toNode?, toNodes?_map ih, Node.lastWins_list, Option.map_some]
  | null | bool | number | string => rfl

theorem exists_toNodes? {items : List Value}
    (h : ∀ item ∈ items, ∃ n, item.toNode? = some n ∧ ofNode n = item) :
    ∃ nodes, toNodes? items = some nodes ∧ nodes.map ofNode = items := by
  induction items with
  | nil => exact ⟨[], rfl, rfl⟩
  | cons item rest ih =>
      obtain ⟨⟨n, hn, hitem⟩, hrest⟩ := List.forall_mem_cons.1 h
      obtain ⟨nodes, hnodes, hitems⟩ := ih hrest
      refine ⟨n :: nodes, ?_, ?_⟩
      · rw [toNodes?, hn, hnodes]
        rfl
      · rw [List.map_cons, hitem, hitems]

theorem exists_toEntries? {entries : Bindings}
    (h : ∀ entry ∈ entries, ∃ n, entry.2.toNode? = some n ∧ ofNode n = entry.2) :
    ∃ es, toEntries? entries = some es ∧
      es.map (fun entry => (entry.1, ofNode entry.2)) = entries := by
  induction entries with
  | nil => exact ⟨[], rfl, rfl⟩
  | cons entry rest ih =>
      obtain ⟨key, value⟩ := entry
      obtain ⟨⟨n, hn, hvalue⟩, hrest⟩ := List.forall_mem_cons.1 h
      obtain ⟨es, hes, hentries⟩ := ih hrest
      refine ⟨(key, n) :: es, ?_, ?_⟩
      · rw [toEntries?, hn, hes]
        rfl
      · rw [List.map_cons, hvalue, hentries]

/-- Plain data is lowered, and lifting gives it back. -/
theorem IsData.exists_node (h : v.IsData) : ∃ n, v.toNode? = some n ∧ ofNode n = v := by
  induction h with
  | null => exact ⟨.null, rfl, rfl⟩
  | bool b => exact ⟨.bool b, rfl, rfl⟩
  | number x => exact ⟨.number x, rfl, rfl⟩
  | string text => exact ⟨.string text, rfl, rfl⟩
  | list _ ih =>
      obtain ⟨nodes, hnodes, hitems⟩ := exists_toNodes? ih
      exact ⟨.list nodes, by rw [toNode?, hnodes, Option.map_some], by rw [ofNode_list, hitems]⟩
  | map hkeys _ ih =>
      obtain ⟨es, hes, hentries⟩ := exists_toEntries? ih
      refine ⟨.map es, by rw [toNode?, hes, Option.map_some], ?_⟩
      rw [ofNode_map, ← lastValues_map, hentries, lastValues_of_nodup hkeys]

end Value

/-- What is left of a document has no duplicate key. -/
theorem Node.isCanonical_lastWins (n : Node) : n.lastWins.IsCanonical := by
  induction n using Node.induction with
  | map es ih =>
      rw [lastWins_map, isCanonical_map]
      refine ⟨?_, List.forall_mem_map.2 fun entry hentry => ih entry (mem_of_mem_lastValues hentry)⟩
      rw [Entries.keys_map fun _ => lastWins, Entries.keys, keys_lastValues]
      exact nodup_eraseDups _
  | list items ih =>
      rw [lastWins_list, isCanonical_list]
      exact List.forall_mem_map.2 ih
  | null | bool | number | string => exact List.forall_mem_singleton.2 List.nodup_nil

namespace Value

/-- **Lifting and lowering are inverse up to duplicate keys.** A document is lifted to plain data
with distinct keys, and lowering that gives the document in which, in every map, each key stands in
the place of its first entry with the value of its last one; this is the document itself just if no
map holds a key twice. Of the values, the plain data with distinct keys are those that lowering and
lifting again leave as they are. -/
theorem lift_and_lower :
    (∀ n : Node, (ofNode n).IsData ∧ (ofNode n).toNode? = some n.lastWins ∧
        (n.lastWins = n ↔ n.IsCanonical)) ∧
      ∀ v : Value, v.toNode?.map ofNode = some v ↔ v.IsData := by
  refine ⟨fun n => ⟨isData_ofNode n, toNode?_ofNode n, ?_, Node.IsCanonical.lastWins_eq⟩, ?_⟩
  · exact fun h => h ▸ n.isCanonical_lastWins
  · intro v
    constructor
    · intro h
      obtain ⟨n, -, hn⟩ := Option.map_eq_some_iff.1 h
      exact hn ▸ isData_ofNode n
    · intro h
      obtain ⟨n, hlower, hlift⟩ := h.exists_node
      rw [hlower, Option.map_some, hlift]

end Value

end SchemaWeave
