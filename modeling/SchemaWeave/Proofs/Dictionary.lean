import Mathlib.Data.List.Induction
import Mathlib.Data.String.Basic
import SchemaWeave.Dictionary

/-!
Look-up in tables. The keys of a table rise (`Dictionary.Rises`), so it holds one entry for each key
that is found and no other; in a table of pairs, the last pair of a key is found
(`Dictionary.get?_ofPairs`).
-/

namespace SchemaWeave

namespace Dictionary

theorem get?_cons (key k v : String) (table : Dictionary) :
    get? key ((k, v) :: table) = if key = k then some v else get? key table := by
  by_cases h : key = k
  · simp [get?, h]
  · rw [get?, List.lookup_cons, beq_eq_false_iff_ne.2 h, if_neg h]
    rfl

theorem get?_insert (key k value : String) (table : Dictionary) :
    get? key (insert k value table) = if key = k then some value else get? key table := by
  induction table with
  | nil => exact get?_cons key k value []
  | cons entry rest ih =>
      obtain ⟨k', v'⟩ := entry
      rw [insert]
      split
      · subst k'
        simp only [get?_cons]
        split <;> rfl
      · split
        · rw [get?_cons]
        · rw [get?_cons, get?_cons, ih]
          by_cases hk : key = k'
          · subst hk
            rw [if_pos rfl, if_pos rfl, if_neg (Ne.symm ‹_›)]
          · rw [if_neg hk, if_neg hk]

/-- The keys rise from entry to entry. -/
def Rises (table : Dictionary) : Prop := table.Pairwise fun a b => a.1 < b.1

variable {key value : String} {table : Dictionary}

theorem mem_insert {entry : String × String} (h : entry ∈ insert key value table) :
    entry = (key, value) ∨ entry ∈ table := by
  induction table with
  | nil => exact .inl (List.mem_singleton.1 h)
  | cons first rest ih =>
      obtain ⟨k, v⟩ := first
      rw [insert] at h
      split at h
      · exact (List.mem_cons.1 h).imp_right (List.mem_cons_of_mem _)
      · split at h
        · exact List.mem_cons.1 h
        · rcases List.mem_cons.1 h with rfl | h
          · exact .inr List.mem_cons_self
          · exact (ih h).imp_right (List.mem_cons_of_mem _)

theorem Rises.insert (h : table.Rises) : (insert key value table).Rises := by
  induction table with
  | nil => exact List.pairwise_singleton _ _
  | cons first rest ih =>
      obtain ⟨k, v⟩ := first
      obtain ⟨hfirst, hrest⟩ := List.pairwise_cons.1 h
      rw [Dictionary.insert]
      split
      · next heq => exact List.pairwise_cons.2 ⟨fun b hb => heq ▸ hfirst b hb, hrest⟩
      · next hne =>
          split
          · next hlt =>
              refine List.pairwise_cons.2 ⟨fun b hb => ?_, h⟩
              rcases List.mem_cons.1 hb with rfl | hb
              · exact hlt
              · exact lt_trans hlt (hfirst b hb)
          · next hnlt =>
              refine List.pairwise_cons.2 ⟨fun b hb => ?_, ih hrest⟩
              rcases mem_insert hb with rfl | hb
              · exact lt_of_le_of_ne (not_lt.1 hnlt) (Ne.symm hne)
              · exact hfirst b hb

theorem get?_eq_some_iff (h : table.Rises) :
    get? key table = some value ↔ (key, value) ∈ table := by
  induction table with
  | nil => simp [get?]
  | cons first rest ih =>
      obtain ⟨k, v⟩ := first
      obtain ⟨hfirst, hrest⟩ := List.pairwise_cons.1 h
      rw [get?_cons, List.mem_cons, Prod.mk.injEq]
      split
      · next heq =>
          subst heq
          -- no entry behind the first one has its key
          have hnew : (key, value) ∉ rest := fun hmem => lt_irrefl key (hfirst _ hmem)
          simp [hnew, eq_comm]
      · next hne => simp [ih hrest, hne]

theorem ofPairs_concat (pairs : List (String × String)) (key value : String) :
    ofPairs (pairs ++ [(key, value)]) = insert key value (ofPairs pairs) :=
  List.foldl_concat ..

theorem rises_ofPairs (pairs : List (String × String)) : (ofPairs pairs).Rises := by
  induction pairs using List.reverseRecOn with
  | nil => exact List.Pairwise.nil
  | append_singleton pairs pair ih =>
      rw [ofPairs_concat]
      exact ih.insert

theorem get?_ofPairs (key : String) (pairs : List (String × String)) :
    get? key (ofPairs pairs) = get? key pairs.reverse := by
  induction pairs using List.reverseRecOn with
  | nil => rfl
  | append_singleton pairs pair ih =>
      rw [ofPairs_concat, get?_insert, ih, List.reverse_concat, get?_cons]

/-- A key is found in the reverse of a list with the value of its last pair. -/
theorem get?_reverse_eq_some_iff {pairs : List (String × String)} :
    get? key pairs.reverse = some value ↔
      ∃ earlier later, pairs = earlier ++ (key, value) :: later ∧ key ∉ later.map Prod.fst := by
  rw [get?, List.lookup_eq_some_iff]
  constructor
  · rintro ⟨behind, before, hpairs, hnew⟩
    refine ⟨before.reverse, behind.reverse, ?_, ?_⟩
    · rw [← List.reverse_reverse pairs, hpairs]
      simp
    · rw [List.map_reverse, List.mem_reverse, List.mem_map]
      rintro ⟨pair, hpair, rfl⟩
      simpa using hnew pair hpair
  · rintro ⟨earlier, later, rfl, hnew⟩
    refine ⟨later.reverse, earlier.reverse, by simp, fun pair hpair => bne_iff_ne.2 ?_⟩
    rintro rfl
    exact hnew (List.mem_map_of_mem (List.mem_reverse.1 hpair))

end Dictionary

end SchemaWeave
