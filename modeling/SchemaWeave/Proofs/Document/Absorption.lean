import SchemaWeave.Proofs.Document.Places

/-!
Merging key by key. A merge combines a later entry with the first one under its key and leaves all
other keys alone (`Entries.get?_set`, `Entries.get?_merge`), so what was merged in once is not felt
a second time: `Node.merge_merge` says so for every later document that is a table, that is, whose
maps hold each key once, and every earlier one.
-/

namespace SchemaWeave

mutual

theorem Node.same_self : ∀ n : Node, n.same n = true
  | .null => rfl
  | .bool b => by simp [Node.same]
  | .number n => by
      cases n <;> simp [Node.same, Number.same, Binary64.sameValue]
  | .string s => by simp [Node.same]
  | .list items => Node.sameItems_self items
  | .map es => Node.sameEntries_self es

theorem Node.sameItems_self : ∀ items : List Node, Node.sameItems items items = true
  | [] => rfl
  | item :: rest => by
      simp [Node.sameItems, Node.same_self item, Node.sameItems_self rest]

theorem Node.sameEntries_self : ∀ es : List (String × Node), Node.sameEntries es es = true
  | [] => rfl
  | (key, value) :: rest => by
      simp [Node.sameEntries, Node.same_self value, Node.sameEntries_self rest]

end

mutual

/-- Every map that is reached through maps alone holds each key once. Items of lists are free. -/
def Node.IsTable : Node → Prop
  | .map es => (Entries.keys es).Nodup ∧ Entries.ValuesAreTables es
  | .list _ => True
  | .null => True
  | .bool _ => True
  | .number _ => True
  | .string _ => True

def Entries.ValuesAreTables : List (String × Node) → Prop
  | [] => True
  | (_, value) :: rest => value.IsTable ∧ Entries.ValuesAreTables rest

end

namespace Entries

variable {es later : Entries} {key k : String} {value : Node}

theorem contains_eq_isSome (key : String) (es : Entries) :
    contains key es = (es.get? key).isSome := by
  induction es with
  | nil => rfl
  | cons entry rest ih =>
      obtain ⟨l, v⟩ := entry
      simp only [contains] at ih
      by_cases hl : l = key <;> simp [contains, get?_cons, hl, ih]

theorem get?_modify (key k : String) (f : Node → Node) (es : Entries) :
    get? k (modify key f es) = if key = k then (es.get? k).map f else es.get? k := by
  induction es with
  | nil => simp [modify, get?]
  | cons entry rest ih =>
      obtain ⟨l, v⟩ := entry
      by_cases hl : l = key
      · subst hl
        by_cases hk : l = k <;> simp [modify, get?_cons, hk]
      · by_cases hk : l = k
        · subst hk
          simp [modify, get?_cons, hl, Ne.symm hl]
        · simp [modify, get?_cons, hl, hk, ih]

/-- A value is merged into the one under its key, or stands there alone, and no other key is
touched. -/
theorem get?_set (key k : String) (value : Node) (es : Entries) :
    get? k (es.set key value) =
      if key = k then some ((es.get? k).elim value (·.merge value)) else es.get? k := by
  rw [set, contains_eq_isSome]
  cases hold : es.get? key with
  | none =>
      by_cases hk : key = k
      · subst hk
        simp [get?_append, get?_cons, hold]
      · simp [get?_append, get?_cons, get?_nil, hk]
  | some old =>
      by_cases hk : key = k
      · subst hk
        simp [get?_modify, hold]
      · simp [get?_modify, hk]

/-- The keys of the later entries aside, a merge leaves every entry in its place. -/
theorem get?_merge_of_not_mem (later : Entries) : ∀ es : Entries, k ∉ later.keys →
    (es.merge later).get? k = es.get? k := by
  induction later with
  | nil => intro es _; rfl
  | cons entry rest ih =>
      intro es hk
      obtain ⟨key, value⟩ := entry
      obtain ⟨hne, hrest⟩ := not_or.1 fun h => hk (List.mem_cons.2 h)
      rw [merge_cons, ih _ hrest, get?_set, if_neg (Ne.symm hne)]

/-- Under distinct keys every later value is merged in just once. -/
theorem get?_merge (later : Entries) : ∀ es : Entries, later.keys.Nodup → (k, value) ∈ later →
    (es.merge later).get? k = some ((es.get? k).elim value (·.merge value)) := by
  induction later with
  | nil => intro es _ h; cases h
  | cons entry rest ih =>
      intro es hkeys hmem
      obtain ⟨key, first⟩ := entry
      obtain ⟨hkey, hrest⟩ := List.nodup_cons.1 hkeys
      rw [merge_cons]
      rcases List.mem_cons.1 hmem with heq | hmem
      · cases heq
        rw [get?_merge_of_not_mem rest _ hkey, get?_set, if_pos rfl]
      · have hne : key ≠ k := by
          rintro rfl
          exact hkey (mem_keys_of_mem hmem)
        rw [ih _ hrest hmem, get?_set, if_neg hne]

/-- Entries hold a value under a key if merging it in would not change what is there. -/
def Absorbs (es : Entries) (key : String) (value : Node) : Prop :=
  ∃ old, es.get? key = some old ∧ old.merge value = old

theorem modify_eq_self {old : Node} {f : Node → Node} (hold : es.get? key = some old)
    (hf : f old = old) : modify key f es = es := by
  induction es with
  | nil => rfl
  | cons entry rest ih =>
      obtain ⟨l, v⟩ := entry
      rw [get?_cons] at hold
      by_cases hl : l = key
      · rw [if_pos hl] at hold
        cases hold
        simp [modify, hl, hf]
      · rw [if_neg hl] at hold
        simp [modify, hl, ih hold]

theorem Absorbs.set_eq (h : es.Absorbs key value) : es.set key value = es := by
  obtain ⟨old, hold, hmerge⟩ := h
  rw [set, contains_eq_isSome, hold, Option.isSome_some, if_pos rfl]
  exact modify_eq_self hold hmerge

theorem merge_eq_self (later : Entries)
    (h : ∀ entry ∈ later, es.Absorbs entry.1 entry.2) : es.merge later = es := by
  induction later with
  | nil => rfl
  | cons entry rest ih =>
      rw [merge_cons, (h entry List.mem_cons_self).set_eq]
      exact ih fun e he => h e (List.mem_cons_of_mem _ he)

end Entries

namespace Node

theorem null_merge (n : Node) : null.merge n = n := by
  cases n <;> rfl

/-- Items that are held already are not added. -/
theorem mergeItems_eq_self {earlier later : List Node}
    (h : ∀ item ∈ later, earlier.any (·.same item) = true) :
    mergeItems earlier later = earlier := by
  have hnone : later.filter (fun item => !earlier.any (·.same item)) = [] := by
    rw [List.filter_eq_nil_iff]
    intro item hitem
    simp [h item hitem]
  rw [mergeItems, hnone, List.append_nil]

theorem any_same_of_mem {item : Node} {items : List Node} (h : item ∈ items) :
    items.any (·.same item) = true :=
  List.any_eq_true.2 ⟨item, h, same_self item⟩

theorem any_same_mergeItems {earlier later : List Node} {item : Node} (h : item ∈ later) :
    (mergeItems earlier later).any (·.same item) = true := by
  rw [mergeItems, List.any_append, Bool.or_eq_true]
  by_cases hheld : earlier.any (·.same item) = true
  · exact .inl hheld
  · exact .inr (any_same_of_mem (List.mem_filter.2 ⟨h, by simp [hheld]⟩))

/-- A node is absorbed if a second merge of it changes nothing. -/
def IsAbsorbed (later : Node) : Prop := ∀ n : Node, (n.merge later).merge later = n.merge later

theorem IsAbsorbed.merge_self {n : Node} (h : n.IsAbsorbed) : n.merge n = n := by
  have hnull := h null
  rwa [null_merge] at hnull

theorem isAbsorbed_list (later : List Node) : (list later).IsAbsorbed := by
  have hself : mergeItems later later = later := mergeItems_eq_self fun _ => any_same_of_mem
  intro n
  cases n with
  | list items =>
      simp only [merge]
      rw [mergeItems_eq_self fun _ => any_same_mergeItems]
  | map | null | bool | number | string => simp only [merge, hself]

/-- A map with distinct keys is absorbed if its values are: each of them is met by what it was
merged into. -/
theorem isAbsorbed_map {later : Entries} (hkeys : later.keys.Nodup)
    (h : ∀ entry ∈ later, entry.2.IsAbsorbed) : (map later).IsAbsorbed := by
  have hself : later.merge later = later := by
    refine Entries.merge_eq_self later fun entry hentry => ?_
    exact ⟨entry.2, Entries.get?_of_mem hkeys hentry, (h entry hentry).merge_self⟩
  intro n
  cases n with
  | map es =>
      simp only [merge]
      rw [Entries.merge_eq_self later]
      intro entry hentry
      refine ⟨_, Entries.get?_merge later es hkeys hentry, ?_⟩
      cases Entries.get? entry.1 es with
      | none => exact (h entry hentry).merge_self
      | some old => exact h entry hentry old
  | list | null | bool | number | string => simp only [merge, hself]

mutual

theorem isAbsorbed_of_isTable : ∀ n : Node, n.IsTable → n.IsAbsorbed
  | .map es, h => isAbsorbed_map h.1 (isAbsorbed_of_valuesAreTables es h.2)
  | .list later, _ => isAbsorbed_list later
  | .null, _ => fun _ => rfl
  | .bool _, _ => fun _ => rfl
  | .number _, _ => fun _ => rfl
  | .string _, _ => fun _ => rfl

theorem isAbsorbed_of_valuesAreTables : ∀ es : List (String × Node),
    Entries.ValuesAreTables es → ∀ entry ∈ es, entry.2.IsAbsorbed
  | [], _ => fun _ h => nomatch h
  | (_, value) :: rest, h => fun _ hentry => by
      rcases List.mem_cons.1 hentry with rfl | hrest
      · exact isAbsorbed_of_isTable value h.1
      · exact isAbsorbed_of_valuesAreTables rest h.2 _ hrest

end

/-- **A second merge is not felt**: once a table was merged into a node, merging it again changes
nothing. A table merged into itself stays as it is. -/
theorem merge_merge (earlier : Node) {later : Node} (h : later.IsTable) :
    (earlier.merge later).merge later = earlier.merge later ∧ later.merge later = later := by
  have habsorbed : later.IsAbsorbed := isAbsorbed_of_isTable later h
  exact ⟨habsorbed earlier, habsorbed.merge_self⟩

/-- A list takes the place of a map, a map that of a text, and of two entries with one key the
first is merged into. Inside the later list a map repeats a key, and an item is repeated. -/
theorem merge_merge_mixed :
    let item : Node := .map [("a", .null), ("a", .bool true)]
    let later : Node := .map [("tags", .list [item, item]), ("info", .map [("b", int 2)])]
    let earlier : Node :=
      .map [("tags", .map [("a", .null)]), ("info", .string "none"), ("tags", .list [])]
    later.IsTable ∧ (earlier.merge later).merge later = earlier.merge later ∧
      earlier.merge later = .map [("tags", .list [item, item]), ("info", .map [("b", int 2)]),
        ("tags", .list [])] := by
  intro item later earlier
  have htable : later.IsTable := by
    simp [later, IsTable, Entries.ValuesAreTables, Entries.keys, int]
  exact ⟨htable, (merge_merge earlier htable).1, rfl⟩

end Node

end SchemaWeave
