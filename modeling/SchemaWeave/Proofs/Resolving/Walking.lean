import SchemaWeave.Proofs.Resolving.Unfolding

/-!
Going through a struct depth first, whatever embeds what. The keys of the structs that are entered
are remembered, and a struct whose key was met is not entered again (`Resolver.Walks`). Such a walk
ends, because each struct that is entered is one declaration less to be met
(`Resolver.exists_walks`); it is the only one (`Resolver.Walks.unique`), enters no key twice
(`Resolver.Walks.unmet`), and enters everything that embedded fields lead to
(`Resolver.Walks.mem_of_embedsAlong`). Where no key is reached twice, walking is unfolding
(`Resolver.Unfolds.walks`).
-/

namespace SchemaWeave

open TypeRef (keys)

namespace Resolver

variable {r : Resolver} {root t u : TypeRef} {file key : String} {f : Field} {fields : List Field}
  {us vs : List TypeRef} {sites more : List Site} {met : List String} {path : List Nat}

/-- The keys that are met when structs are entered, the last one first. -/
def metWith (us : List TypeRef) (met : List String) : List String := (keys us).reverse ++ met

theorem mem_metWith : key ∈ metWith us met ↔ key ∈ keys us ∨ key ∈ met := by
  simp [metWith]

theorem metWith_append (us vs : List TypeRef) (met : List String) :
    metWith (us ++ vs) met = metWith vs (metWith us met) := by
  simp [metWith]

/-- The key of a type was met. -/
def IsMet (met : List String) (u : TypeRef) : Prop := ∃ key ∈ met, u.key = some key

instance (met : List String) (u : TypeRef) : Decidable (IsMet met u) :=
  inferInstanceAs (Decidable (∃ key ∈ met, u.key = some key))

theorem IsMet.mono {met' : List String} (h : IsMet met u) (hmet : met ⊆ met') : IsMet met' u := by
  obtain ⟨key, hkey, hu⟩ := h
  exact ⟨key, hmet hkey, hu⟩

/-- No key was met before, and none comes twice. -/
def Unmet (met : List String) (us : List TypeRef) : Prop :=
  (keys us).Nodup ∧ ∀ key ∈ keys us, key ∉ met

theorem unmet_append : Unmet met (us ++ vs) ↔ Unmet met us ∧ Unmet (metWith us met) vs := by
  simp only [Unmet, mem_metWith, TypeRef.keys_append, List.nodup_append, List.mem_append]
  grind

theorem unmet_singleton : Unmet met [u] ↔ ¬ IsMet met u := by
  cases hkey : u.key <;> simp [Unmet, IsMet, hkey]

/-- A walk through the fields of a struct in a file, when some keys were met before. In the place of
a field that takes in a struct stands the walk through that struct, or nothing if its key was met.
The structs are listed as they are entered, and so are the sites of the other fields. -/
inductive Walks (r : Resolver) :
    List String → String → List Field → List TypeRef → List Site → Prop where
  | nil {met : List String} {file : String} : Walks r met file [] [] []
  | own {met : List String} {file : String} {f : Field} {rest : List Field} {us : List TypeRef}
      {sites : List Site} (hf : r.embedded? file f = none) (h : Walks r met file rest us sites) :
      Walks r met file (f :: rest) us (⟨file, f⟩ :: sites)
  | again {met : List String} {file : String} {f : Field} {rest : List Field} {u : TypeRef}
      {us : List TypeRef} {sites : List Site} (hf : r.embedded? file f = some u)
      (hold : IsMet met u) (h : Walks r met file rest us sites) :
      Walks r met file (f :: rest) us sites
  | enter {met : List String} {file : String} {f : Field} {rest : List Field} {u : TypeRef}
      {us others : List TypeRef} {sites more : List Site} (hf : r.embedded? file f = some u)
      (hnew : ¬ IsMet met u) (hu : Walks r (metWith [u] met) u.file u.fields us sites)
      (h : Walks r (metWith (u :: us) met) file rest others more) :
      Walks r met file (f :: rest) (u :: us ++ others) (sites ++ more)

/-- There is no choice on the way. -/
theorem Walks.unique (h : r.Walks met file fields us sites) : ∀ {vs : List TypeRef}
    {more : List Site}, r.Walks met file fields vs more → vs = us ∧ more = sites := by
  induction h with
  | nil =>
      intro vs more h'
      cases h'
      exact ⟨rfl, rfl⟩
  | own hf _ ih =>
      intro vs more h'
      cases h' with
      | own _ h' => exact (ih h').imp id (congrArg _)
      | again hf' _ _ => rw [hf] at hf'; cases hf'
      | enter hf' _ _ _ => rw [hf] at hf'; cases hf'
  | again hf hold _ ih =>
      intro vs more h'
      cases h' with
      | own hf' _ => rw [hf] at hf'; cases hf'
      | again _ _ h' => exact ih h'
      | enter hf' hnew _ _ =>
          rw [hf] at hf'
          cases hf'
          exact absurd hold hnew
  | enter hf hnew _ _ ihu ih =>
      intro vs more h'
      cases h' with
      | own hf' _ => rw [hf] at hf'; cases hf'
      | again hf' hold _ =>
          rw [hf] at hf'
          cases hf'
          exact absurd hold hnew
      | enter hf' _ hu' h' =>
          rw [hf] at hf'
          cases hf'
          obtain ⟨rfl, rfl⟩ := ihu hu'
          obtain ⟨rfl, rfl⟩ := ih h'
          exact ⟨rfl, rfl⟩

/-- A struct that is entered is taken in by a field. -/
theorem Walks.exists_embedded (h : r.Walks met file fields us sites) :
    ∀ u ∈ us, ∃ file f, r.embedded? file f = some u := by
  induction h with
  | nil => nofun
  | own _ _ ih => exact ih
  | again _ _ _ ih => exact ih
  | enter hf _ _ _ ihu ih =>
      intro v hv
      simp only [List.cons_append, List.mem_cons, List.mem_append] at hv
      rcases hv with rfl | hv | hv
      · exact ⟨_, _, hf⟩
      · exact ihu v hv
      · exact ih v hv

theorem Walks.declares (h : r.Walks met file fields us sites) :
    ∀ u ∈ us, ∃ d ∈ r.graph.types, u.key = some d.key := by
  intro u hu
  obtain ⟨file, f, hf⟩ := h.exists_embedded u hu
  exact exists_key_of_embedded? hf

theorem Walks.isFound (h : r.Walks met file fields us sites) : ∀ u ∈ us, r.graph.IsFound u := by
  intro u hu
  obtain ⟨file, f, hf⟩ := h.exists_embedded u hu
  exact isFound_embedded? hf

/-- No key is met a second time. -/
theorem Walks.unmet (h : r.Walks met file fields us sites) : Unmet met us := by
  induction h with
  | nil => exact ⟨List.nodup_nil, nofun⟩
  | own _ _ ih => exact ih
  | again _ _ _ ih => exact ih
  | @enter met file f rest u us others sites more hf hnew _ _ ihu ih =>
      have hthrough : Unmet met ([u] ++ us) := unmet_append.2 ⟨unmet_singleton.2 hnew, ihu⟩
      exact unmet_append.2 ⟨hthrough, ih⟩

/-- The sites of the fields that take in nothing. -/
def ownSites (r : Resolver) (file : String) (fields : List Field) : List Site :=
  (fields.filter fun f => (r.embedded? file f).isNone).map fun f => ⟨file, f⟩

/-- The sites are those of the walk's own fields and of the structs that are entered. -/
theorem Walks.sites_perm (h : r.Walks met file fields us sites) :
    sites.Perm (r.ownSites file fields ++ us.flatMap fun u => r.ownSites u.file u.fields) := by
  induction h with
  | nil => exact .nil
  | own hf _ ih => simpa [ownSites, hf] using ih
  | again hf _ _ ih => simpa [ownSites, hf] using ih
  | @enter met file f rest u us others sites more hf _ _ _ ihu ih =>
      have hown : r.ownSites file (f :: rest) = r.ownSites file rest := by simp [ownSites, hf]
      rw [hown, List.cons_append, List.flatMap_cons, List.flatMap_append,
        ← List.append_assoc (r.ownSites u.file u.fields)]
      exact (ihu.append ih).trans (List.perm_append_comm_assoc _ _ _)

/-! ### The walk ends -/

/-- The keys of the declarations that were not met. -/
def unmetKeys (r : Resolver) (met : List String) : List String :=
  (r.graph.types.map Declaration.key).filter (· ∉ met)

theorem unmetKeys_sublist {met' : List String} (h : met ⊆ met') :
    (r.unmetKeys met').Sublist (r.unmetKeys met) := by
  refine List.monotone_filter_right _ fun key hkey => ?_
  have hnew : key ∉ met' := of_decide_eq_true hkey
  exact decide_eq_true fun hmem => hnew (h hmem)

theorem subset_metWith (us : List TypeRef) (met : List String) : met ⊆ metWith us met :=
  fun _ h => mem_metWith.2 (.inr h)

/-- A struct that is entered is a declaration less to be met. -/
theorem unmetKeys_length_lt (hf : r.embedded? file f = some u) (hnew : ¬ IsMet met u) :
    (r.unmetKeys (metWith [u] met)).length < (r.unmetKeys met).length := by
  have hsublist := unmetKeys_sublist (r := r) (subset_metWith [u] met)
  refine Nat.lt_of_le_of_ne hsublist.length_le fun hlength => ?_
  obtain ⟨d, hd, hkey⟩ := exists_key_of_embedded? hf
  have hmem : d.key ∈ r.unmetKeys met :=
    List.mem_filter.2 ⟨List.mem_map_of_mem hd,
      decide_eq_true fun hmet => hnew ⟨d.key, hmet, hkey⟩⟩
  rw [← hsublist.eq_of_length hlength] at hmem
  refine of_decide_eq_true (List.mem_filter.1 hmem).2 (mem_metWith.2 (.inl ?_))
  simp [hkey]

private theorem exists_walks_of_room (n : Nat) : ∀ (met : List String) (file : String)
    (fields : List Field), (r.unmetKeys met).length < n →
      ∃ us sites, r.Walks met file fields us sites := by
  induction n with
  | zero => intro met file fields h; cases h
  | succ n ih =>
      intro met file fields
      -- the fields behind a struct are gone through with all keys that were met in it
      induction fields generalizing met with
      | nil => intro _; exact ⟨[], [], .nil⟩
      | cons f rest ihrest =>
          intro hroom
          cases hf : r.embedded? file f with
          | none =>
              obtain ⟨us, sites, h⟩ := ihrest met hroom
              exact ⟨us, _, .own hf h⟩
          | some u =>
              by_cases hold : IsMet met u
              · obtain ⟨us, sites, h⟩ := ihrest met hroom
                exact ⟨us, sites, .again hf hold h⟩
              · have hless := unmetKeys_length_lt hf hold
                obtain ⟨us, sites, hu⟩ := ih (metWith [u] met) u.file u.fields (by omega)
                have hle := (unmetKeys_sublist (r := r) (subset_metWith (u :: us) met)).length_le
                obtain ⟨others, more, h⟩ := ihrest (metWith (u :: us) met) (by omega)
                exact ⟨_, _, .enter hf hold hu h⟩

/-- **Every walk ends**, whatever the structs embed. -/
theorem exists_walks (r : Resolver) (met : List String) (file : String) (fields : List Field) :
    ∃ us sites, r.Walks met file fields us sites :=
  exists_walks_of_room _ met file fields (Nat.lt_succ_self _)

/-- No walk enters more structs than there are declarations. -/
theorem Walks.length_le (h : r.Walks met file fields us sites) :
    us.length ≤ r.graph.types.length := by
  have hsubset : keys us ⊆ r.graph.types.map Declaration.key := by
    intro key hkey
    obtain ⟨u, hu, hkey⟩ := TypeRef.mem_keys.1 hkey
    obtain ⟨d, hd, hdkey⟩ := h.declares u hu
    rw [hkey] at hdkey
    exact List.mem_map.2 ⟨d, hd, (Option.some.inj hdkey).symm⟩
  have hkeys : (keys us).length = us.length := TypeRef.length_keys fun u hu => by
    obtain ⟨d, -, hkey⟩ := h.declares u hu
    exact ⟨d.key, hkey⟩
  have hle := (List.subperm_of_subset h.unmet.1 hsubset).length_le
  rwa [hkeys, List.length_map] at hle

/-! ### The walk misses nothing -/

/-- What the fields of the walk take in, and those of the structs that are entered, is met. -/
theorem Walks.isMet (h : r.Walks met file fields us sites) :
    (∀ f ∈ fields, ∀ u, r.embedded? file f = some u → IsMet (metWith us met) u) ∧
      ∀ t ∈ us, ∀ f ∈ t.fields, ∀ u, r.embedded? t.file f = some u →
        IsMet (metWith us met) u := by
  induction h with
  | nil => exact ⟨nofun, nofun⟩
  | own hf _ ih =>
      refine ⟨List.forall_mem_cons.2 ⟨fun u hu => ?_, ih.1⟩, ih.2⟩
      rw [hf] at hu
      cases hu
  | again hf hold _ ih =>
      refine ⟨List.forall_mem_cons.2 ⟨fun u hu => ?_, ih.1⟩, ih.2⟩
      obtain rfl := Option.some.inj (hf.symm.trans hu)
      exact hold.mono (subset_metWith _ _)
  | @enter met file f rest u us others sites more hf _ _ _ ihu ih =>
      have hinner : metWith us (metWith [u] met) ⊆ metWith (u :: us ++ others) met := by
        rw [metWith_append, ← metWith_append]
        exact subset_metWith _ _
      rw [← metWith_append] at ih
      refine ⟨List.forall_mem_cons.2 ⟨fun v hv => ?_, ih.1⟩, fun t ht => ?_⟩
      · obtain rfl := Option.some.inj (hf.symm.trans hv)
        obtain ⟨d, -, hkey⟩ := exists_key_of_embedded? hf
        exact ⟨d.key, mem_metWith.2 (.inl (by simp [hkey])), hkey⟩
      · simp only [List.cons_append, List.mem_cons, List.mem_append] at ht
        rcases ht with rfl | ht | ht
        · exact fun f hf v hv => (ihu.1 f hf v hv).mono hinner
        · exact fun f hf v hv => (ihu.2 t ht f hf v hv).mono hinner
        · exact ih.2 t ht

/-- **Everything that embedded fields lead to is entered** by the walk through a struct. -/
theorem Walks.mem_of_embedsAlong (h : r.Walks (metWith [root] []) root.file root.fields us sites)
    (hroot : r.graph.IsFound root) (ht : r.EmbedsAlong root path t) : t ∈ root :: us := by
  have hfound : ∀ v ∈ root :: us, r.graph.IsFound v := List.forall_mem_cons.2 ⟨hroot, h.isFound⟩
  induction ht with
  | root => exact List.mem_cons_self
  | @step path t u i f _ hi hu ih =>
      have hf : f ∈ t.fields := List.mem_of_getElem? hi
      have hmet : IsMet (metWith us (metWith [root] [])) u := by
        rcases List.mem_cons.1 ih with rfl | ht
        · exact h.isMet.1 f hf u hu
        · exact h.isMet.2 t ht f hf u hu
      obtain ⟨key, hmem, hkey⟩ := hmet
      rw [← metWith_append, mem_metWith, List.singleton_append] at hmem
      obtain ⟨v, hv, hvkey⟩ := TypeRef.mem_keys.1 (hmem.resolve_right List.not_mem_nil)
      -- what is found under one key is one declaration
      rwa [(isFound_embedded? hu).eq_of_key (hfound v hv) hkey hvkey]

/-- Unfolding is a walk if no key comes up twice. -/
theorem Unfolds.walks (h : r.Unfolds file fields us sites) : ∀ {met : List String},
    Unmet met us → r.Walks met file fields us sites := by
  induction h with
  | nil => intro met _; exact .nil
  | own hf _ ih => intro met hunmet; exact .own hf (ih hunmet)
  | @embedded file f rest u us others sites more hf _ _ ihu ih =>
      intro met hunmet
      obtain ⟨hthrough, hlater⟩ := unmet_append.1 hunmet
      have hthrough : Unmet met ([u] ++ us) := hthrough
      obtain ⟨hself, hinner⟩ := unmet_append.1 hthrough
      exact .enter hf (unmet_singleton.1 hself) (ihu hinner) (ih hlater)

end Resolver

end SchemaWeave
