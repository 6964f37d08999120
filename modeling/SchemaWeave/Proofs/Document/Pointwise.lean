import Mathlib.Data.List.Nodup
import SchemaWeave.Proofs.Document.Canonical

/-!
A merge, entry by entry. Merging a map with distinct keys into another one keeps the keys of the
earlier map in their places and appends the new ones; the values under a key combine
(`Node.combination`), and an entry whose key occurs before it is not touched. This describes the
merge completely: `Entries.eq_merge_iff` says that no other map fits the description.
-/

namespace SchemaWeave

/-- What two values under one key combine to: maps merge, a list gets those items of the later one
that equal none of its own, and in every other case the later value stands alone. -/
def Node.combination : Node → Node → Node
  | .map es, .map later => .map (Entries.merge es later)
  | .list items, .list later =>
    .list (items ++ later.filter fun item => items.all fun old => !old.same item)
  | _, later => later

theorem Node.merge_eq_combination (n later : Node) : n.merge later = n.combination later := by
  cases later with
  | list later =>
      cases n with
      | list items => simp only [merge, combination, mergeItems, List.not_any_eq_all_not]
      | map | null | bool | number | string => rfl
  | map | null | bool | number | string => cases n <;> rfl

namespace Entries

variable {es later m m' : Entries} {key : String} {value : Node} {i : Nat}

/-- The key of the entry at a position occurs before it. -/
def Repeats (es : Entries) (i : Nat) : Prop := ∃ k, es.keys[i]? = some k ∧ k ∈ es.keys.take i

/-- The description of a merge: which keys the result has, what stands under a key, and what happens
to entries that look up does not find. -/
structure IsMergeOf (es later m : Entries) : Prop where
  keys : m.keys = es.keys ++ later.keys.filter (· ∉ es.keys)
  get? : ∀ key, m.get? key = Option.merge Node.combination (es.get? key) (later.get? key)
  repeated : ∀ i, es.Repeats i → m[i]? = es[i]?

theorem getElem?_keys (es : Entries) (i : Nat) : es.keys[i]? = es[i]?.map Prod.fst :=
  List.getElem?_map

/-! ### What a merge does to an entry -/

/-- Only the first entry with the key changes. -/
theorem getElem?_modify (key : String) (f : Node → Node) : ∀ (es : Entries) (i : Nat),
    (modify key f es)[i]? = es[i]? ∨ es.keys[i]? = some key ∧ key ∉ es.keys.take i := by
  intro es
  induction es with
  | nil => intro i; exact .inl rfl
  | cons entry rest ih =>
      intro i
      obtain ⟨k, v⟩ := entry
      by_cases hk : k = key
      · subst hk
        cases i with
        | zero => exact .inr ⟨rfl, List.not_mem_nil⟩
        | succ i => exact .inl (by simp [modify])
      · cases i with
        | zero => exact .inl (by simp [modify, hk])
        | succ i =>
            rcases ih i with h | ⟨hi, hnew⟩
            · exact .inl (by simpa [modify, hk] using h)
            · exact .inr ⟨hi, by simpa [keys, Ne.symm hk] using hnew⟩

theorem Repeats.append_keys {ks : List String} (h : es.Repeats i) (hm : m.keys = es.keys ++ ks) :
    m.Repeats i := by
  obtain ⟨k, hi, hk⟩ := h
  obtain ⟨hlt, -⟩ := List.getElem?_eq_some_iff.1 hi
  refine ⟨k, ?_, ?_⟩
  · rw [hm, List.getElem?_append_left hlt, hi]
  · rw [hm, List.take_append_of_le_length (Nat.le_of_lt hlt)]
    exact hk

theorem Repeats.getElem?_set (h : es.Repeats i) (key : String) (value : Node) :
    (es.set key value)[i]? = es[i]? := by
  obtain ⟨k, hi, hk⟩ := h
  rw [set]
  split
  · refine (getElem?_modify key _ es i).resolve_right ?_
    rintro ⟨hkey, hnew⟩
    rw [hi] at hkey
    cases hkey
    exact hnew hk
  · obtain ⟨hlt, -⟩ := List.getElem?_eq_some_iff.1 hi
    rw [keys, List.length_map] at hlt
    exact List.getElem?_append_left hlt

theorem Repeats.set (h : es.Repeats i) (key : String) (value : Node) :
    (es.set key value).Repeats i := by
  by_cases hkey : key ∈ es.keys
  · have hsame : (es.set key value).keys = es.keys ++ [] := by
      rw [keys_set, if_pos hkey, List.append_nil]
    exact h.append_keys hsame
  · have hadded : (es.set key value).keys = es.keys ++ [key] := by rw [keys_set, if_neg hkey]
    exact h.append_keys hadded

/-- A merge leaves the entries alone that look up does not find. -/
theorem Repeats.getElem?_merge (later : List (String × Node)) : ∀ {es : Entries},
    es.Repeats i → (es.merge later)[i]? = es[i]? := by
  induction later with
  | nil => intro es _; rfl
  | cons entry rest ih =>
      intro es h
      rw [merge_cons, ih (h.set entry.1 entry.2), h.getElem?_set]

theorem eraseDups_of_nodup {ks : List String} (h : ks.Nodup) : ks.eraseDups = ks := by
  induction ks with
  | nil => rfl
  | cons k rest ih =>
      obtain ⟨hk, hrest⟩ := List.nodup_cons.1 h
      have hall : rest.filter (fun l => !l == k) = rest := by
        refine List.filter_eq_self.2 fun l hl => ?_
        have hne : l ≠ k := fun heq => hk (heq ▸ hl)
        simpa using hne
      rw [List.eraseDups_cons, hall, ih hrest]

theorem isMergeOf_merge (es : Entries) (hlater : later.keys.Nodup) :
    IsMergeOf es later (es.merge later) where
  keys := by
    have hnew : (later.keys.removeAll es.keys).Nodup := hlater.filter _
    rw [keys_merge, eraseDups_of_nodup hnew]
    simp [List.removeAll]
  get? key := by
    by_cases hkey : key ∈ later.keys
    · obtain ⟨⟨k, value⟩, hmem, rfl⟩ := List.mem_map.1 hkey
      rw [get?_merge later es hlater hmem, get?_of_mem hlater hmem]
      cases es.get? k with
      | none => rfl
      | some old => exact congrArg some (old.merge_eq_combination value)
    · rw [get?_merge_of_not_mem later es hkey, get?_of_not_mem hkey, Option.merge_none_right]
  repeated _ h := h.getElem?_merge later

/-! ### The description leaves no choice -/

/-- Look up finds an entry whose key does not occur before it. -/
theorem get?_of_getElem? : ∀ {es : Entries} {i : Nat}, es[i]? = some (key, value) →
    key ∉ es.keys.take i → es.get? key = some value := by
  intro es
  induction es with
  | nil => intro i h; cases h
  | cons entry rest ih =>
      intro i h hnew
      obtain ⟨k, v⟩ := entry
      rw [get?_cons]
      cases i with
      | zero =>
          cases h
          exact if_pos rfl
      | succ i =>
          obtain ⟨hk, hrest⟩ := not_or.1 (mt List.mem_cons.2 hnew)
          rw [if_neg (Ne.symm hk)]
          exact ih h hrest

/-- Maps are equal if they have the same keys, look up finds the same in both, and the other entries
are the same. -/
theorem eq_of_get? (hkeys : m.keys = m'.keys) (hget : ∀ key, m.get? key = m'.get? key)
    (hrepeated : ∀ i, m.Repeats i → m[i]? = m'[i]?) : m = m' := by
  refine List.ext_getElem? fun i => ?_
  have hi : m[i]?.map Prod.fst = m'[i]?.map Prod.fst := by
    rw [← getElem?_keys, ← getElem?_keys, hkeys]
  cases hentry : m[i]? with
  | none =>
      rw [hentry] at hi
      exact (Option.map_eq_none_iff.1 hi.symm).symm
  | some entry =>
      obtain ⟨k, v⟩ := entry
      have hk : m.keys[i]? = some k := by rw [getElem?_keys, hentry]; rfl
      by_cases hnew : k ∈ m.keys.take i
      · rw [← hrepeated i ⟨k, hk, hnew⟩, hentry]
      · rw [hentry] at hi
        obtain ⟨⟨k', v'⟩, hentry', rfl⟩ := Option.map_eq_some_iff.1 hi.symm
        have hv := get?_of_getElem? hentry hnew
        rw [hget, get?_of_getElem? hentry' (hkeys ▸ hnew)] at hv
        rw [hentry', Option.some.inj hv]

/-- No new key repeats one, so what repeats a key is in the earlier map. -/
theorem IsMergeOf.repeats (hlater : later.keys.Nodup) (hm : IsMergeOf es later m)
    (h : m.Repeats i) : es.Repeats i := by
  obtain ⟨k, hi, hk⟩ := h
  rw [hm.keys] at hi hk
  have hnew : (later.keys.filter (· ∉ es.keys)).Nodup := hlater.filter _
  rcases Nat.lt_or_ge i es.keys.length with hlt | hge
  · rw [List.getElem?_append_left hlt] at hi
    rw [List.take_append_of_le_length (Nat.le_of_lt hlt)] at hk
    exact ⟨k, hi, hk⟩
  · exfalso
    rw [List.getElem?_append_right hge] at hi
    rw [List.take_append, List.take_of_length_le hge] at hk
    have hfresh := List.mem_filter.1 (List.mem_of_getElem? hi)
    rcases List.mem_append.1 hk with hk | hk
    · exact of_decide_eq_true hfresh.2 hk
    · refine List.disjoint_take_drop hnew (Nat.le_refl _) hk ?_
      exact List.mem_iff_getElem?.2 ⟨0, by rw [List.getElem?_drop, Nat.add_zero, hi]⟩

/-- **A merge is what its pointwise description says**, and nothing else is: the keys of the earlier
map are followed by the new ones in their order, under each key stands the value of the map that has
it or the combination of the first value of the earlier map with that of the later one, and entries
that repeat a key are unchanged. -/
theorem eq_merge_iff (es : Entries) (hlater : later.keys.Nodup) (m : Entries) :
    m = es.merge later ↔ IsMergeOf es later m := by
  have hmerge : IsMergeOf es later (es.merge later) := isMergeOf_merge es hlater
  constructor
  · rintro rfl
    exact hmerge
  · intro hm
    refine eq_of_get? (hm.keys.trans hmerge.keys.symm) (fun key => ?_) fun i hi => ?_
    · rw [hm.get?, hmerge.get?]
    · have hrepeats := hm.repeats hlater hi
      rw [hm.repeated i hrepeats, hmerge.repeated i hrepeats]

/-- Maps are merged, a list gets new items, a text takes the place of a list, a second entry with
the key is left alone, and two keys are new. -/
theorem eq_merge_iff_mixed :
    let es : Entries := [("info", .map [("a", .null)]), ("tags", .list [.int 1, .int 2]),
      ("kind", .list []), ("info", .string "second")]
    let later : Entries := [("size", .int 3), ("kind", .string "pet"),
      ("tags", .list [.int 2, .int 4, .int 4]), ("info", .map [("b", .null)]), ("age", .int 5)]
    later.keys.Nodup ∧ IsMergeOf es later
      [("info", .map [("a", .null), ("b", .null)]),
        ("tags", .list [.int 1, .int 2, .int 4, .int 4]), ("kind", .string "pet"),
        ("info", .string "second"), ("size", .int 3), ("age", .int 5)] := by
  intro es later
  have hlater : later.keys.Nodup := by decide
  exact ⟨hlater, (eq_merge_iff es hlater _).1 rfl⟩

end Entries

end SchemaWeave
