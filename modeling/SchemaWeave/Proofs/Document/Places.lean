import SchemaWeave.Document.Merge

/-!
A map with distinct keys is a table: look up finds every entry, and collapsing duplicate keys goes
down to the values without touching the entries themselves. Collapsing is a merge, and a merge of
entries under new and distinct keys appends them (`Entries.merge_of_nodup`).
-/

namespace SchemaWeave

/-- The node under a path of keys. -/
def Node.at? : List String → Node → Option Node
  | [], n => some n
  | key :: path, n => (n.get? key).bind (at? path)

@[simp] theorem Node.get?_map (key : String) (es : Entries) :
    (Node.map es).get? key = es.get? key := rfl

theorem Node.at?_map_cons (key : String) (path : List String) (es : Entries) :
    (Node.map es).at? (key :: path) = (es.get? key).bind (at? path) := rfl

theorem Node.at?_of_get? {es : Entries} {key : String} {n : Node} (h : es.get? key = some n)
    (path : List String) : (Node.map es).at? (key :: path) = n.at? path := by
  rw [Node.at?_map_cons, h, Option.bind_some]

namespace Entries

variable {es : Entries} {key : String}

@[simp] theorem get?_nil (key : String) : get? key [] = none := rfl

@[simp] theorem get?_cons (key k : String) (v : Node) (es : Entries) :
    get? key ((k, v) :: es) = if k = key then some v else get? key es := by
  by_cases h : k = key <;> simp [get?, h]

@[simp] theorem get?_append (key : String) (es others : Entries) :
    get? key (es ++ others) = (es.get? key).or (get? key others) := by
  rw [get?, List.find?_append, Option.map_or]
  rfl

theorem mem_keys_of_mem {v : Node} (h : (key, v) ∈ es) : key ∈ es.keys :=
  List.mem_map.2 ⟨(key, v), h, rfl⟩

theorem mem_of_get? {v : Node} (h : es.get? key = some v) : (key, v) ∈ es := by
  induction es with
  | nil => simp [get?] at h
  | cons entry rest ih =>
      obtain ⟨k, w⟩ := entry
      rw [get?_cons] at h
      by_cases hk : k = key
      · simp_all
      · rw [if_neg hk] at h
        exact List.mem_cons_of_mem _ (ih h)

theorem get?_of_mem {v : Node} (hes : es.keys.Nodup) (h : (key, v) ∈ es) :
    es.get? key = some v := by
  induction es with
  | nil => simp at h
  | cons entry rest ih =>
      obtain ⟨k, w⟩ := entry
      obtain ⟨hk, hrest⟩ := List.nodup_cons.1 hes
      rw [get?_cons]
      rcases List.mem_cons.1 h with heq | hmem
      · cases heq
        rw [if_pos rfl]
      · have hne : k ≠ key := by
          rintro rfl
          exact hk (mem_keys_of_mem hmem)
        rw [if_neg hne]
        exact ih hrest hmem

theorem get?_of_not_mem (h : key ∉ es.keys) : es.get? key = none := by
  cases hget : es.get? key with
  | none => rfl
  | some v => exact absurd (mem_keys_of_mem (mem_of_get? hget)) h

/-- Under distinct keys, two entries with one key are the same entry. -/
theorem eq_of_mem {v w : Node} (hes : es.keys.Nodup) (hv : (key, v) ∈ es) (hw : (key, w) ∈ es) :
    v = w := by
  have h := get?_of_mem hes hv
  rw [get?_of_mem hes hw] at h
  exact (Option.some.inj h).symm

theorem get?_map (f : String → Node → Node) (key : String) (es : Entries) :
    get? key (es.map fun e => (e.1, f e.1 e.2)) = (es.get? key).map (f key) := by
  induction es with
  | nil => rfl
  | cons entry rest ih =>
      obtain ⟨k, v⟩ := entry
      rw [List.map_cons, get?_cons, get?_cons, ih]
      by_cases h : k = key
      · subst h
        simp
      · simp [h]

theorem keys_map (f : String → Node → Node) (es : Entries) :
    keys (es.map fun e => (e.1, f e.1 e.2)) = es.keys := by
  simp [keys]

theorem contains_iff_mem_keys : contains key es = true ↔ key ∈ es.keys := by
  simp [contains, keys]

theorem set_of_not_mem (h : key ∉ es.keys) (value : Node) :
    es.set key value = es ++ [(key, value)] := by
  rw [set, if_neg (mt contains_iff_mem_keys.1 h)]

theorem insert_of_not_mem (h : key ∉ es.keys) (value : Node) :
    es.insert key value = es ++ [(key, value)] := by
  rw [insert, if_neg (mt contains_iff_mem_keys.1 h)]

theorem keys_modify (key : String) (f : Node → Node) (es : Entries) :
    keys (modify key f es) = es.keys := by
  induction es with
  | nil => rfl
  | cons entry rest ih =>
      obtain ⟨k, v⟩ := entry
      by_cases hk : k = key
      · simp [modify, keys, hk]
      · simpa [modify, keys, hk] using ih

theorem keys_set (key : String) (value : Node) (es : Entries) :
    (es.set key value).keys = if key ∈ es.keys then es.keys else es.keys ++ [key] := by
  by_cases hkey : key ∈ es.keys
  · rw [if_pos hkey, set, if_pos (contains_iff_mem_keys.2 hkey), keys_modify]
  · rw [if_neg hkey, set_of_not_mem hkey, keys, List.map_append]
    rfl

theorem nodup_keys_set (h : es.keys.Nodup) (value : Node) : (es.set key value).keys.Nodup := by
  rw [keys_set]
  split
  · exact h
  · next hkey =>
    exact List.nodup_append.2 ⟨h, List.nodup_cons.2 ⟨List.not_mem_nil, List.nodup_nil⟩, by
      rintro k hk l hl rfl
      obtain rfl := List.mem_singleton.1 hl
      exact hkey hk⟩

theorem merge_cons (es : Entries) (key : String) (value : Node) (rest : Entries) :
    es.merge ((key, value) :: rest) = (es.set key value).merge rest := rfl

theorem nodup_keys_merge (later : Entries) : ∀ {es : Entries},
    es.keys.Nodup → (es.merge later).keys.Nodup := by
  induction later with
  | nil => intro es h; exact h
  | cons entry rest ih => intro es h; exact ih (nodup_keys_set h _)

/-- A merge of entries whose keys are all new and distinct appends them. -/
theorem merge_of_nodup (later : Entries) : ∀ {es : Entries},
    (es.keys ++ later.keys).Nodup → es.merge later = es ++ later := by
  induction later with
  | nil => intro es _; exact (List.append_nil es).symm
  | cons entry rest ih =>
      intro es h
      obtain ⟨key, value⟩ := entry
      have hnew : key ∉ es.keys := by
        intro hmem
        exact (List.nodup_append.1 h).2.2 key hmem key (by simp [keys]) rfl
      rw [merge_cons, set_of_not_mem hnew, ih]
      · simp
      · simpa [keys] using h

/-- Collapsing merges the collapsed entries one after the other. -/
theorem collapse_eq_merge (es : List (String × Node)) : ∀ collected : Entries,
    collapse collected es =
      collected.merge (es.map fun entry => (entry.1, entry.2.mergeDuplicates)) := by
  induction es with
  | nil => intro _; rfl
  | cons entry rest ih => intro collected; exact ih _

/-- Where keys are distinct, only the values are collapsed. -/
theorem mergeDuplicates_of_nodup (h : es.keys.Nodup) :
    es.mergeDuplicates = es.map fun e => (e.1, e.2.mergeDuplicates) := by
  rw [mergeDuplicates, collapse_eq_merge, merge_of_nodup, List.nil_append]
  rwa [keys_map fun _ => Node.mergeDuplicates]

theorem get?_mergeDuplicates (h : es.keys.Nodup) (key : String) :
    es.mergeDuplicates.get? key = (es.get? key).map Node.mergeDuplicates := by
  rw [mergeDuplicates_of_nodup h]
  exact get?_map (fun _ => Node.mergeDuplicates) key es

end Entries

end SchemaWeave
