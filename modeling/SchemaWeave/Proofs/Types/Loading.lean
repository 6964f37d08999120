import SchemaWeave.Types.Load

/-!
A graph describes the packages it was loaded from (`Describes`): it holds the declaration of each
entry of a type or a method, in their order, and no two types have one key. Each package keeps this
up, and so does a whole manifest (`load_describes`).
-/

namespace SchemaWeave

open TypePath (join dropSlashes)

theorem bind_eq_ok {ε α β : Type} {x : Except ε α} {f : α → Except ε β} {b : β} :
    x >>= f = .ok b ↔ ∃ a, x = .ok a ∧ f a = .ok b := by
  constructor
  · intro h
    cases x with
    | error e => cases h
    | ok a => exact ⟨a, rfl, h⟩
  · rintro ⟨a, rfl, h⟩
    exact h

theorem map_eq_ok {ε α β : Type} {f : α → β} {x : Except ε α} {b : β} :
    x.map f = .ok b ↔ ∃ a, x = .ok a ∧ f a = b := by
  cases x with
  | error e => exact ⟨nofun, nofun⟩
  | ok a => exact ⟨fun h => ⟨a, rfl, Except.ok.inj h⟩, by rintro ⟨_, ⟨⟩, rfl⟩; rfl⟩

theorem mapError_eq_ok {ε ε' α : Type} {f : ε → ε'} {x : Except ε α} {a : α} :
    x.mapError f = .ok a ↔ x = .ok a := by
  cases x with
  | error e => exact ⟨nofun, nofun⟩
  | ok b =>
      exact ⟨fun h => congrArg Except.ok (Except.ok.inj h),
        fun h => congrArg Except.ok (Except.ok.inj h)⟩

section Related

/-! A list of entries, each of which makes a declaration, and the list of the declarations. -/

variable {α β ε : Type} {f : α → Except ε β} {as : List α} {bs : List β}

theorem exists_of_map_ok (h : as.map f = bs.map .ok) {a : α} (ha : a ∈ as) :
    ∃ b ∈ bs, f a = .ok b := by
  have hmem := List.mem_map_of_mem (f := f) ha
  rw [h] at hmem
  obtain ⟨b, hb, heq⟩ := List.mem_map.1 hmem
  exact ⟨b, hb, heq.symm⟩

theorem find?_map_ok {p : α → Bool} {q : β → Bool} (hpq : ∀ a b, f a = .ok b → p a = q b) :
    ∀ {as : List α} {bs : List β}, as.map f = bs.map .ok →
      (as.find? p).map f = (bs.find? q).map .ok := by
  intro as
  induction as with
  | nil =>
      intro bs h
      cases bs with
      | nil => rfl
      | cons b bs => cases h
  | cons a as ih =>
      intro bs h
      cases bs with
      | nil => cases h
      | cons b bs =>
          obtain ⟨hab, hrest⟩ := List.cons.inj h
          rw [List.find?_cons, List.find?_cons, hpq a b hab]
          cases q b with
          | true => exact congrArg some hab
          | false => exact ih hrest

end Related

namespace Graph

/-- No two types have one key. -/
def DistinctKeys (g : Graph) : Prop := (g.types.map (·.key)).Nodup

variable {g : Graph} {d : Declaration}

theorem type?_eq_none_iff {key : String} :
    g.type? key = none ↔ key ∉ g.types.map (·.key) := by
  simp [type?, List.find?_eq_none]

/-- A type is found by its key. -/
theorem DistinctKeys.type?_key (h : g.DistinctKeys) (hd : d ∈ g.types) :
    g.type? d.key = some d := by
  unfold DistinctKeys at h
  unfold type?
  generalize g.types = ds at h hd
  induction ds with
  | nil => cases hd
  | cons first rest ih =>
      obtain ⟨hfirst, hrest⟩ := List.nodup_cons.1 h
      rcases List.mem_cons.1 hd with rfl | hd
      · simp
      · have hne : first.key ≠ d.key := by
          intro heq
          exact hfirst (List.mem_map.2 ⟨d, hd, heq.symm⟩)
        rw [List.find?_cons_of_neg (by simpa using hne)]
        exact ih hrest hd

end Graph

namespace Manifest

/-! ### What an entry declares -/

/-- The declaration of a type of a package. -/
def TypeEntry.declaration (package : String) (t : TypeEntry) :
    Except ManifestError Declaration := do
  let key := join package t.name
  let shape ← t.loadShape key
  let doc ← loadDoc t.doc key
  .ok ⟨key, t.name, t.file.getD package, doc, shape, t.constants.map fun c => ⟨c.name, c.value⟩⟩

/-- The key of a method of a package. -/
def MethodEntry.key (package : String) (m : MethodEntry) : String :=
  join (join package m.receiver) m.name

/-- The declaration of a method of a package. -/
def MethodEntry.declaration (package : String) (m : MethodEntry) :
    Except ManifestError Declaration := do
  let doc ← loadDoc m.doc (m.key package)
  .ok ⟨m.key package, m.name, m.file.getD package, doc, .expr .func, []⟩

variable {package : String} {g g' : Graph} {d : Declaration}

theorem TypeEntry.key_of_declaration {t : TypeEntry} (h : t.declaration package = .ok d) :
    d.key = join package t.name := by
  obtain ⟨shape, -, h⟩ := bind_eq_ok.1 h
  obtain ⟨doc, -, h⟩ := bind_eq_ok.1 h
  cases h
  rfl

theorem MethodEntry.key_of_declaration {m : MethodEntry} (h : m.declaration package = .ok d) :
    d.key = m.key package := by
  obtain ⟨doc, -, h⟩ := bind_eq_ok.1 h
  cases h
  rfl

/-! ### One entry -/

theorem TypeEntry.load_eq (g : Graph) (t : TypeEntry) :
    t.load package g =
      if (g.type? (join package t.name)).isSome then
        .error (.duplicateType (join package t.name))
      else do return { g with types := g.types ++ [← t.declaration package] } := by
  simp only [TypeEntry.load, TypeEntry.declaration, bind_assoc]
  rfl

theorem TypeEntry.load_eq_ok {t : TypeEntry} (h : t.load package g = .ok g') :
    ∃ d, t.declaration package = .ok d ∧ g.type? d.key = none ∧
      g' = { g with types := g.types ++ [d] } := by
  rw [TypeEntry.load_eq] at h
  split at h
  · cases h
  · rename_i hfree
    obtain ⟨d, hd, h⟩ := bind_eq_ok.1 h
    cases h
    refine ⟨d, hd, ?_, rfl⟩
    rw [TypeEntry.key_of_declaration hd]
    exact Option.not_isSome_iff_eq_none.1 hfree

theorem MethodEntry.load_eq (g : Graph) (m : MethodEntry) :
    m.load package g = do return { g with methods := (← m.declaration package) :: g.methods } := by
  simp only [MethodEntry.load, MethodEntry.declaration, bind_assoc]
  rfl

theorem MethodEntry.load_eq_ok {m : MethodEntry} (h : m.load package g = .ok g') :
    ∃ d, m.declaration package = .ok d ∧ g' = { g with methods := d :: g.methods } := by
  rw [MethodEntry.load_eq] at h
  obtain ⟨d, hd, h⟩ := bind_eq_ok.1 h
  cases h
  exact ⟨d, hd, rfl⟩

/-! ### The entries of a package -/

theorem loadTypes_eq_ok (ts : List TypeEntry) : ∀ {g g' : Graph},
    ts.foldlM (TypeEntry.load package) g = .ok g' →
      ∃ ds : List Declaration, ts.map (TypeEntry.declaration package) = ds.map .ok ∧
        g' = { g with types := g.types ++ ds } ∧ (g.DistinctKeys → g'.DistinctKeys) := by
  induction ts with
  | nil =>
      intro g g' h
      cases h
      exact ⟨[], rfl, by simp, id⟩
  | cons t ts ih =>
      intro g g' h
      rw [List.foldlM_cons] at h
      obtain ⟨next, hnext, h⟩ := bind_eq_ok.1 h
      obtain ⟨d, hd, hfree, rfl⟩ := TypeEntry.load_eq_ok hnext
      obtain ⟨ds, hds, rfl, hdistinct⟩ := ih h
      refine ⟨d :: ds, by simp [hd, hds], by simp, fun hkeys => hdistinct ?_⟩
      rw [Graph.type?_eq_none_iff] at hfree
      simp only [Graph.DistinctKeys, List.map_append, List.map_cons, List.map_nil]
      exact List.nodup_append.2 ⟨hkeys, by simp, by grind⟩

theorem loadMethods_eq_ok (ms : List MethodEntry) : ∀ {g g' : Graph},
    ms.foldlM (MethodEntry.load package) g = .ok g' →
      ∃ ds : List Declaration, ms.map (MethodEntry.declaration package) = ds.map .ok ∧
        g' = { g with methods := ds.reverse ++ g.methods } := by
  induction ms with
  | nil =>
      intro g g' h
      cases h
      exact ⟨[], rfl, rfl⟩
  | cons m ms ih =>
      intro g g' h
      rw [List.foldlM_cons] at h
      obtain ⟨next, hnext, h⟩ := bind_eq_ok.1 h
      obtain ⟨d, hd, rfl⟩ := MethodEntry.load_eq_ok hnext
      obtain ⟨ds, hds, rfl⟩ := ih h
      exact ⟨d :: ds, by simp [hd, hds], by simp⟩

/-! ### All packages -/

/-- The path of a package, as it stands in keys. -/
def PackageEntry.key (p : PackageEntry) : String := dropSlashes p.path

/-- The types of packages, each with the path of its package. -/
def typeEntries (ps : List PackageEntry) : List (String × TypeEntry) :=
  ps.flatMap fun p => p.types.map fun t => (p.key, t)

/-- The methods of packages, each with the path of its package. -/
def methodEntries (ps : List PackageEntry) : List (String × MethodEntry) :=
  ps.flatMap fun p => p.methods.map fun m => (p.key, m)

/-- The graph holds what the packages declare. -/
structure Describes (root : String) (ps : List PackageEntry) (g : Graph) : Prop where
  root_eq : g.root = root
  packages_eq : g.packages = ps.map PackageEntry.key
  types_eq : (typeEntries ps).map (fun e => e.2.declaration e.1) = g.types.map .ok
  /-- The latest method stands first. -/
  methods_eq : (methodEntries ps).map (fun e => e.2.declaration e.1) = g.methods.reverse.map .ok
  distinct : g.DistinctKeys

theorem Describes.load {root : String} {ps : List PackageEntry} (hg : Describes root ps g)
    {p : PackageEntry} (h : p.load g = .ok g') : Describes root (ps ++ [p]) g' := by
  obtain ⟨middle, hmiddle, h⟩ := bind_eq_ok.1 h
  obtain ⟨ts, hts, rfl, hdistinct⟩ := loadTypes_eq_ok _ hmiddle
  obtain ⟨ms, hms, rfl⟩ := loadMethods_eq_ok _ h
  have htypes : typeEntries (ps ++ [p]) = typeEntries ps ++ p.types.map fun t => (p.key, t) := by
    simp [typeEntries]
  have hmethods : methodEntries (ps ++ [p]) =
      methodEntries ps ++ p.methods.map fun m => (p.key, m) := by
    simp [methodEntries]
  exact {
    root_eq := hg.root_eq
    packages_eq := by
      simp only [addFiles, List.map_append, List.map_cons, List.map_nil, hg.packages_eq]
      rfl
    types_eq := by
      rw [htypes, List.map_append, hg.types_eq, List.map_map, List.map_append]
      exact congrArg _ hts
    methods_eq := by
      rw [hmethods, List.map_append, hg.methods_eq, List.map_map, List.reverse_append,
        List.reverse_reverse, List.map_append]
      exact congrArg _ hms
    distinct := hdistinct hg.distinct }

section Whole

variable (P : List PackageEntry → Graph → Prop)
  (hload : ∀ {ps p g g'}, P ps g → PackageEntry.load g p = .ok g' → P (ps ++ [p]) g')
include hload

theorem loadAll_induction (qs : List PackageEntry) : ∀ {ps g g'}, P ps g →
    qs.foldlM PackageEntry.load g = .ok g' → P (ps ++ qs) g' := by
  induction qs with
  | nil =>
      intro ps g g' hg h
      cases h
      simpa using hg
  | cons q qs ih =>
      intro ps g g' hg h
      rw [List.foldlM_cons] at h
      obtain ⟨next, hnext, h⟩ := bind_eq_ok.1 h
      simpa using ih (hload hg hnext) h

/-- What holds at the start, and what each package keeps up, holds of a loaded graph. -/
theorem load_induction {m : Manifest}
    (hstart : P [] { Graph.empty with root := dropSlashes m.root }) (h : m.load = .ok g) :
    P m.packages g :=
  loadAll_induction P hload m.packages hstart h

end Whole

end Manifest

/-- A loaded graph describes the packages of its manifest. -/
theorem Manifest.load_describes {m : Manifest} {g : Graph} (h : m.load = .ok g) :
    Describes (dropSlashes m.root) m.packages g :=
  load_induction (Describes (dropSlashes m.root)) (fun hg hp => hg.load hp)
    ⟨rfl, rfl, rfl, rfl, List.nodup_nil⟩ h

namespace Manifest

/-! ### Finding a declaration -/

/-- The last method with a key, and its package. -/
def lastMethod? (m : Manifest) (key : String) : Option (String × MethodEntry) :=
  (methodEntries m.packages).reverse.find? fun e => e.2.key e.1 == key

variable {m : Manifest} {root : String} {g : Graph} {p : PackageEntry}

theorem Describes.hasPackage (hg : Describes root m.packages g) (hp : p ∈ m.packages) :
    p.key ∈ g.packages := by
  rw [hg.packages_eq]
  exact List.mem_map_of_mem hp

/-- The declaration of an entry is found by its key. -/
theorem Describes.declared {ps : List PackageEntry} (hg : Describes root ps g) (hp : p ∈ ps)
    {t : TypeEntry} (ht : t ∈ p.types) :
    ∃ d, t.declaration p.key = .ok d ∧ g.type? d.key = some d := by
  have hmem : (p.key, t) ∈ typeEntries ps :=
    List.mem_flatMap.2 ⟨p, hp, List.mem_map.2 ⟨t, ht, rfl⟩⟩
  obtain ⟨d, hd, hdeclared⟩ := exists_of_map_ok hg.types_eq hmem
  exact ⟨d, hdeclared, hg.distinct.type?_key hd⟩

theorem Describes.lookup (hg : Describes root m.packages g) (hp : p ∈ m.packages) {t : TypeEntry}
    (ht : t ∈ p.types) :
    ∃ d, t.declaration p.key = .ok d ∧ g.lookup p.key t.name = some d.ref := by
  obtain ⟨d, hdeclared, hfound⟩ := hg.declared hp ht
  refine ⟨d, hdeclared, ?_⟩
  rw [Graph.lookup, ← TypeEntry.key_of_declaration hdeclared, hfound]
  rfl

theorem Describes.methodAt? (hg : Describes root m.packages g) (key : String) :
    (m.lastMethod? key).map (fun e => e.2.declaration e.1) = (g.methodAt? key).map .ok := by
  refine find?_map_ok (fun e d h => by rw [MethodEntry.key_of_declaration h]) ?_
  rw [List.map_reverse, hg.methods_eq, ← List.map_reverse, List.reverse_reverse]

theorem Describes.lastMethod (hg : Describes root m.packages g) (hp : p ∈ m.packages)
    {e : MethodEntry} (he : e ∈ p.methods) :
    ∃ last d, m.lastMethod? (e.key p.key) = some last ∧ last.2.declaration last.1 = .ok d ∧
      g.methodAt? (e.key p.key) = some d := by
  have hmem : (p.key, e) ∈ (methodEntries m.packages).reverse :=
    List.mem_reverse.2 (List.mem_flatMap.2 ⟨p, hp, List.mem_map.2 ⟨e, he, rfl⟩⟩)
  have hsome : (m.lastMethod? (e.key p.key)).isSome := by
    rw [lastMethod?, List.find?_isSome]
    exact ⟨_, hmem, by simp⟩
  obtain ⟨last, hlast⟩ := Option.isSome_iff_exists.1 hsome
  have hmethod := hg.methodAt? (e.key p.key)
  rw [hlast, Option.map_some] at hmethod
  obtain ⟨d, hd, hdeclared⟩ := Option.map_eq_some_iff.1 hmethod.symm
  exact ⟨last, d, hlast, hdeclared.symm, hd⟩

end Manifest

end SchemaWeave
