import SchemaWeave.Proofs.Document.Absorption
import SchemaWeave.Proofs.Document.Parts

/-!
Documents in which every map holds each key once. A merge of two of them is one of them again
(`Node.IsCanonical.merge`), so collapsing duplicate keys ends in one of them, whatever it began with
(`Node.isCanonical_mergeDuplicates`). It changes nothing about those that are canonical already, and
the keys of a map stay where they first occurred (`Entries.keys_mergeDuplicates`).
-/

namespace SchemaWeave

/-- Every map of the document, also inside lists, holds each key once. -/
def Node.IsCanonical (n : Node) : Prop := n.Throughout fun part => part.keys.Nodup

instance (n : Node) : Decidable n.IsCanonical := inferInstanceAs (Decidable (n.Throughout _))

namespace Entries

variable {es : Entries} {key : String} {value : Node}

theorem removeAll_append_single (ks collected : List String) (key : String) :
    ks.removeAll (collected ++ [key]) = (ks.removeAll collected).filter (!· == key) := by
  simp only [List.removeAll, List.filter_filter]
  refine List.filter_congr fun k _ => ?_
  by_cases hk : k = key <;> simp [hk]

/-- A merge keeps the keys in their places; those that are new follow in the order of their first
occurrences. -/
theorem keys_merge (later : List (String × Node)) : ∀ es : Entries,
    (es.merge later).keys = es.keys ++ ((keys later).removeAll es.keys).eraseDups := by
  induction later with
  | nil => intro es; simp [merge, keys, List.removeAll]
  | cons entry rest ih =>
      intro es
      obtain ⟨key, value⟩ := entry
      have hkeys : keys ((key, value) :: rest) = key :: keys rest := rfl
      rw [merge_cons, ih, keys_set, hkeys, List.cons_removeAll]
      by_cases hkey : key ∈ es.keys
      · simp [hkey]
      · simp [hkey, List.eraseDups_cons, removeAll_append_single]

/-- The keys of a collapsed map are the first occurrences of its keys. -/
theorem keys_mergeDuplicates (es : Entries) : es.mergeDuplicates.keys = es.keys.eraseDups := by
  have hall : es.keys.removeAll [] = es.keys := List.filter_eq_self.2 fun _ _ => rfl
  rw [mergeDuplicates, collapse_eq_merge, keys_merge, keys_map (fun _ => Node.mergeDuplicates)]
  exact congrArg List.eraseDups hall

theorem mem_modify {f : Node → Node} {entry : String × Node} (h : entry ∈ modify key f es) :
    entry ∈ es ∨ ∃ old, (key, old) ∈ es ∧ entry = (key, f old) := by
  induction es with
  | nil => cases h
  | cons first rest ih =>
      obtain ⟨k, v⟩ := first
      by_cases hk : k = key
      · subst hk
        simp only [modify, beq_self_eq_true, if_true] at h
        rcases List.mem_cons.1 h with rfl | h
        · exact .inr ⟨v, List.mem_cons_self, rfl⟩
        · exact .inl (List.mem_cons_of_mem _ h)
      · simp only [modify, beq_eq_false_iff_ne.2 hk, Bool.false_eq_true, if_false] at h
        rcases List.mem_cons.1 h with rfl | h
        · exact .inl List.mem_cons_self
        · rcases ih h with h | ⟨old, hold, rfl⟩
          · exact .inl (List.mem_cons_of_mem _ h)
          · exact .inr ⟨old, List.mem_cons_of_mem _ hold, rfl⟩

/-- After setting, an entry is an old one, or the new value, alone or merged into an old one. -/
theorem mem_set {entry : String × Node} (h : entry ∈ es.set key value) :
    entry ∈ es ∨ entry.2 = value ∨ ∃ old, (key, old) ∈ es ∧ entry.2 = old.merge value := by
  rw [set] at h
  split at h
  · rcases mem_modify h with h | ⟨old, hold, rfl⟩
    · exact .inl h
    · exact .inr (.inr ⟨old, hold, rfl⟩)
  · rcases List.mem_append.1 h with h | h
    · exact .inl h
    · exact .inr (.inl (congrArg Prod.snd (List.mem_singleton.1 h)))

end Entries

namespace Node

variable {es later : Entries} {items : List Node} {key : String} {n value : Node}

theorem isCanonical_map :
    (map es).IsCanonical ↔ es.keys.Nodup ∧ ∀ entry ∈ es, entry.2.IsCanonical :=
  throughout_map

theorem isCanonical_list : (list items).IsCanonical ↔ ∀ item ∈ items, item.IsCanonical := by
  rw [IsCanonical, throughout_list]
  exact and_iff_right List.nodup_nil

/-- Setting a canonical value keeps a map canonical, if merging it into one of the values does. -/
theorem isCanonical_set (hes : (map es).IsCanonical) (hvalue : value.IsCanonical)
    (hmerge : ∀ old : Node, old.IsCanonical → (old.merge value).IsCanonical) :
    (map (es.set key value)).IsCanonical := by
  obtain ⟨hkeys, hvalues⟩ := isCanonical_map.1 hes
  refine isCanonical_map.2 ⟨Entries.nodup_keys_set hkeys value, fun entry hentry => ?_⟩
  rcases Entries.mem_set hentry with hold | hnew | ⟨old, hold, hnew⟩
  · exact hvalues entry hold
  · exact hnew ▸ hvalue
  · exact hnew ▸ hmerge old (hvalues _ hold)

theorem isCanonical_mergeEntries {later : List (String × Node)}
    (hlater : ∀ entry ∈ later, entry.2.IsCanonical ∧
      ∀ old : Node, old.IsCanonical → (old.merge entry.2).IsCanonical) :
    ∀ {es : Entries}, (map es).IsCanonical → (map (es.merge later)).IsCanonical := by
  induction later with
  | nil => exact fun h => h
  | cons entry rest ih =>
      intro es hes
      obtain ⟨hentry, hrest⟩ := List.forall_mem_cons.1 hlater
      exact ih hrest (isCanonical_set hes hentry.1 hentry.2)

/-- **Merging brings back no duplicate key**, at any depth. -/
theorem IsCanonical.merge {later : Node} (hlater : later.IsCanonical) :
    ∀ earlier : Node, earlier.IsCanonical → (earlier.merge later).IsCanonical := by
  -- The later document gives the result its shape, so the induction is on it.
  induction later using Node.induction with
  | map later ih =>
      intro earlier hearlier
      cases earlier with
      | map es =>
          obtain ⟨-, hvalues⟩ := isCanonical_map.1 hlater
          exact isCanonical_mergeEntries
            (fun entry hentry => ⟨hvalues entry hentry, ih entry hentry (hvalues entry hentry)⟩)
            hearlier
      | list | null | bool | number | string => exact hlater
  | list items =>
      intro earlier hearlier
      cases earlier with
      | list held =>
          refine isCanonical_list.2 fun item hitem => ?_
          rcases List.mem_append.1 hitem with hitem | hitem
          · exact isCanonical_list.1 hearlier item hitem
          · exact isCanonical_list.1 hlater item (List.mem_filter.1 hitem).1
      | map | null | bool | number | string => exact hlater
  | null | bool | number | string => exact fun _ _ => hlater

theorem mergeDuplicatesItems_eq (items : List Node) :
    mergeDuplicatesItems items = items.map mergeDuplicates := by
  induction items with
  | nil => rfl
  | cons item rest ih => rw [mergeDuplicatesItems, ih, List.map_cons]

/-- **No duplicate key is left** at any depth of a collapsed document. -/
theorem isCanonical_mergeDuplicates (n : Node) : n.mergeDuplicates.IsCanonical := by
  induction n using Node.induction with
  | map es ih =>
      rw [mergeDuplicates, Entries.collapse_eq_merge]
      refine isCanonical_mergeEntries (List.forall_mem_map.2 fun entry hentry => ?_)
        (isCanonical_map.2 ⟨List.nodup_nil, nofun⟩)
      exact ⟨ih entry hentry, (ih entry hentry).merge⟩
  | list items ih =>
      rw [mergeDuplicates, mergeDuplicatesItems_eq, isCanonical_list]
      exact List.forall_mem_map.2 ih
  | null | bool | number | string => exact List.forall_mem_singleton.2 List.nodup_nil

theorem IsCanonical.mergeDuplicates_eq (h : n.IsCanonical) : n.mergeDuplicates = n := by
  induction n using Node.induction with
  | map es ih =>
      obtain ⟨hkeys, hvalues⟩ := isCanonical_map.1 h
      have hsame : ∀ entry ∈ es, (entry.1, entry.2.mergeDuplicates) = id entry :=
        fun entry hentry => Prod.ext rfl (ih entry hentry (hvalues entry hentry))
      have hes : es.mergeDuplicates = es := by
        rw [Entries.mergeDuplicates_of_nodup hkeys, List.map_congr_left hsame, List.map_id]
      exact congrArg map hes
  | list items ih =>
      have hsame : ∀ item ∈ items, item.mergeDuplicates = id item :=
        fun item hitem => ih item hitem (isCanonical_list.1 h item hitem)
      rw [mergeDuplicates, mergeDuplicatesItems_eq, List.map_congr_left hsame, List.map_id]
  | null | bool | number | string => rfl

/-- Only canonical documents are left alone. -/
theorem mergeDuplicates_eq_self_iff : n.mergeDuplicates = n ↔ n.IsCanonical :=
  ⟨fun h => h ▸ isCanonical_mergeDuplicates n, IsCanonical.mergeDuplicates_eq⟩

end Node

end SchemaWeave
