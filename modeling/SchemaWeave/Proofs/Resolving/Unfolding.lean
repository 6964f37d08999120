import Mathlib.Data.List.Forall2
import Mathlib.Data.List.Nodup
import Mathlib.Data.List.Perm.Subperm
import SchemaWeave.Proofs.Resolving.Exposure

/-!
What a struct takes in. Embedded fields without a tag lead from one struct to another
(`Resolver.EmbedsAlong`). Where the fields of the struct that is denoted stand in the place of the
field that denotes it, a struct unfolds into one list of fields that take in nothing
(`Resolver.Unfolds`). Where no key is reached along two ways (`Resolver.EmbedsOnce`) every way is
short, because it meets a new declaration with each step, so such a list exists, and the structs it
was made of have distinct keys (`Resolver.EmbedsOnce.exists_unfolds`).
-/

namespace SchemaWeave

/-- The keys of types, those that have one. -/
def TypeRef.keys (ts : List TypeRef) : List String := ts.flatMap fun t => t.key.toList

namespace TypeRef

@[simp] theorem keys_nil : keys [] = [] := rfl

@[simp] theorem keys_cons (t : TypeRef) (ts : List TypeRef) :
    keys (t :: ts) = t.key.toList ++ keys ts := by
  simp [keys]

@[simp] theorem keys_append (ts us : List TypeRef) : keys (ts ++ us) = keys ts ++ keys us := by
  simp [keys]

theorem keys_sublist {ts us : List TypeRef} (h : ts.Sublist us) :
    (keys ts).Sublist (keys us) := by
  induction h with
  | slnil => exact List.Sublist.refl _
  | cons u _ ih => exact ih.trans (by simp)
  | cons_cons u _ ih =>
      rw [keys_cons, keys_cons]
      exact ih.append_left _

theorem mem_keys {ts : List TypeRef} {key : String} :
    key ∈ keys ts ↔ ∃ t ∈ ts, t.key = some key := by
  simp [keys]

theorem length_keys {ts : List TypeRef} (h : ∀ t ∈ ts, ∃ key, t.key = some key) :
    (keys ts).length = ts.length := by
  induction ts with
  | nil => rfl
  | cons t rest ih =>
      obtain ⟨⟨key, hkey⟩, hrest⟩ := List.forall_mem_cons.1 h
      simp [hkey, ih hrest]

end TypeRef

open TypeRef (keys)

/-- A field, and the file in whose scope it stands. -/
structure Site where
  file : String
  field : Field

namespace Resolver

variable {r : Resolver} {root t u : TypeRef} {path : List Nat} {file key : String} {f : Field}

/-- The struct that a field without a tag takes in, if its type denotes one. -/
def embedded? (r : Resolver) (file : String) (f : Field) : Option TypeRef :=
  if isSpliced f then r.structOf? (f.ref file) else none

theorem embedded?_eq_some_iff : r.embedded? file f = some u ↔
    isSpliced f = true ∧ r.definition? (f.ref file) = some u ∧ u.isStruct = true := by
  unfold embedded? structOf?
  split <;> simp_all [Option.filter_eq_some_iff]

theorem declares_embedded? (h : r.embedded? file f = some u) : r.graph.Declares u := by
  obtain ⟨-, hd, hstruct⟩ := embedded?_eq_some_iff.1 h
  refine (definition?_ref_declared hd).resolve_right fun hloose => ?_
  obtain ⟨-, ⟨e, he⟩ | ⟨kind, he⟩ | he | he⟩ := hloose <;> simp [TypeRef.isStruct, he] at hstruct

theorem exists_key_of_embedded? (h : r.embedded? file f = some u) :
    ∃ d ∈ r.graph.types, u.key = some d.key := by
  obtain ⟨d, hd, rfl⟩ := declares_embedded? h
  exact ⟨d, hd, rfl⟩

theorem leads_of_embedded? (h : r.embedded? file f = some u) : r.graph.Leads (f.ref file) u := by
  obtain ⟨-, hd, hstruct⟩ := embedded?_eq_some_iff.1 h
  refine (leads_of_definitionWithin r.graph maxHops hd).resolve_right fun hloose => ?_
  exact (declares_embedded? h).key_ne_none hloose.1

theorem isFound_embedded? (h : r.embedded? file f = some u) : r.graph.IsFound u := by
  have hfield : r.graph.IsFound (f.ref file) := nofun
  exact (leads_of_embedded? h).takesIn.isFound hfield

/-- Embedded fields lead from the root to a struct, by their positions, the last one first. -/
inductive EmbedsAlong (r : Resolver) (root : TypeRef) : List Nat → TypeRef → Prop where
  | root : EmbedsAlong r root [] root
  | step {path : List Nat} {t u : TypeRef} {i : Nat} {f : Field} (h : EmbedsAlong r root path t)
      (hf : t.fields[i]? = some f) (hu : r.embedded? t.file f = some u) :
      EmbedsAlong r root (i :: path) u

/-- No key is reached along two ways, that of the root itself included. -/
def EmbedsOnce (r : Resolver) (root : TypeRef) : Prop :=
  ∀ path path' t u key, r.EmbedsAlong root path t → r.EmbedsAlong root path' u →
    t.key = some key → u.key = some key → path = path'

/-- The ways that go one step further than a given one, with the structs that they lead to. -/
def waysOn (r : Resolver) (way : List Nat × TypeRef) : List (List Nat × TypeRef) :=
  way.2.fields.zipIdx.filterMap fun (f, i) =>
    (r.embedded? way.2.file f).map fun u => (i :: way.1, u)

section Ways

variable {ways : List (List Nat × TypeRef)} (hways : ([], root) :: ways.flatMap r.waysOn = ways)
include hways

/-- A list that loses nothing when its ways are continued has all the ways from the root. -/
theorem EmbedsAlong.mem_ways (h : r.EmbedsAlong root path t) : (path, t) ∈ ways := by
  induction h with
  | root =>
      rw [← hways]
      exact List.mem_cons_self
  | @step path t u i f _ hf hu ih =>
      have hmem : (i :: path, u) ∈ r.waysOn (path, t) :=
        List.mem_filterMap.2 ⟨(f, i), List.mem_zipIdx_iff_getElem?.2 hf, by simp [hu]⟩
      rw [← hways]
      exact List.mem_cons_of_mem _ (List.mem_flatMap.2 ⟨_, ih, hmem⟩)

theorem embedsOnce_of_ways (hkeys : (ways.map fun way => way.2.key).Nodup) :
    r.EmbedsOnce root := by
  intro path path' t u key ht hu htkey hukey
  have hsame := List.inj_on_of_nodup_map hkeys (ht.mem_ways hways) (hu.mem_ways hways)
    (htkey.trans hukey.symm)
  exact (Prod.mk.inj hsame).1

end Ways

/-- The fields of a struct in a file unfold into sites: those of the structs that are taken in stand
in the place of the fields that take them in. The structs are listed as they are met. -/
inductive Unfolds (r : Resolver) : String → List Field → List TypeRef → List Site → Prop where
  | nil {file : String} : Unfolds r file [] [] []
  | own {file : String} {f : Field} {rest : List Field} {us : List TypeRef} {sites : List Site}
      (hf : r.embedded? file f = none) (h : Unfolds r file rest us sites) :
      Unfolds r file (f :: rest) us (⟨file, f⟩ :: sites)
  | embedded {file : String} {f : Field} {rest : List Field} {u : TypeRef}
      {us others : List TypeRef} {sites more : List Site} (hf : r.embedded? file f = some u)
      (hu : Unfolds r u.file u.fields us sites) (h : Unfolds r file rest others more) :
      Unfolds r file (f :: rest) (u :: us ++ others) (sites ++ more)

section Once

variable (honce : r.EmbedsOnce root)
include honce

/-- The keys that are met along a way are distinct. -/
theorem EmbedsOnce.exists_keys (h : r.EmbedsAlong root path t) :
    ∃ met : List String, met.length = path.length ∧ met.Nodup ∧
      met ⊆ r.graph.types.map Declaration.key ∧
      ∀ key ∈ met, ∃ path' u, r.EmbedsAlong root path' u ∧ u.key = some key ∧
        path'.length ≤ path.length := by
  induction h with
  | root => exact ⟨[], rfl, List.nodup_nil, List.nil_subset _, fun _ h => by cases h⟩
  | @step path t u i f h hf hu ih =>
      obtain ⟨met, hlength, hnodup, hsubset, hmet⟩ := ih
      obtain ⟨d, hd, hkey⟩ := exists_key_of_embedded? hu
      have hu : r.EmbedsAlong root (i :: path) u := .step h hf hu
      have hnew : d.key ∉ met := by
        intro hmem
        obtain ⟨path', v, hv, hvkey, hshort⟩ := hmet d.key hmem
        rw [← honce _ _ _ _ _ hu hv hkey hvkey, List.length_cons] at hshort
        omega
      refine ⟨d.key :: met, by simp [hlength], List.nodup_cons.2 ⟨hnew, hnodup⟩,
        List.cons_subset.2 ⟨List.mem_map_of_mem hd, hsubset⟩, ?_⟩
      intro key hmem
      rcases List.mem_cons.1 hmem with rfl | hmem
      · exact ⟨i :: path, u, hu, hkey, Nat.le_refl _⟩
      · obtain ⟨path', v, hv, hvkey, hshort⟩ := hmet key hmem
        exact ⟨path', v, hv, hvkey, Nat.le_succ_of_le hshort⟩

theorem EmbedsOnce.length_le (h : r.EmbedsAlong root path t) :
    path.length ≤ r.graph.types.length := by
  obtain ⟨met, hlength, hnodup, hsubset, -⟩ := honce.exists_keys h
  have hle := (List.subperm_of_subset hnodup hsubset).length_le
  rwa [hlength, List.length_map] at hle

omit honce in
private theorem exists_unfolds_fields (fields : List Field)
    (h : ∀ f ∈ fields, ∀ u, r.embedded? file f = some u →
      ∃ us sites, r.Unfolds u.file u.fields us sites) :
    ∃ us sites, r.Unfolds file fields us sites := by
  induction fields with
  | nil => exact ⟨[], [], .nil⟩
  | cons f rest ih =>
      obtain ⟨hf, hrest⟩ := List.forall_mem_cons.1 h
      obtain ⟨others, more, hmore⟩ := ih hrest
      cases hembedded : r.embedded? file f with
      | none => exact ⟨_, _, .own hembedded hmore⟩
      | some u =>
          obtain ⟨us, sites, hu⟩ := hf u hembedded
          exact ⟨_, _, .embedded hembedded hu hmore⟩

/-- A struct that is reached unfolds, because no way goes on for longer than there are
declarations. -/
private theorem EmbedsOnce.exists_unfolds_of_room (n : Nat) : ∀ {path : List Nat} {t : TypeRef},
    r.EmbedsAlong root path t → r.graph.types.length < path.length + n →
      ∃ us sites, r.Unfolds t.file t.fields us sites := by
  induction n with
  | zero =>
      intro path t h hroom
      have := honce.length_le h
      omega
  | succ n ih =>
      intro path t h hroom
      refine exists_unfolds_fields t.fields fun f hf u hu => ?_
      obtain ⟨i, hi⟩ := List.mem_iff_getElem?.1 hf
      exact ih (.step h hi hu) (by rw [List.length_cons]; omega)

end Once

/-- Two ways on from one place are one if they end alike. -/
private theorem eq_of_suffix {i j : Nat} {path whole : List Nat} (hi : i :: path <:+ whole)
    (hj : j :: path <:+ whole) : i = j := by
  have hsuffix := List.suffix_of_suffix_length_le hi hj (Nat.le_refl _)
  exact (List.cons.inj (hsuffix.eq_of_length rfl)).1

/-- The structs that are met are reached along different ways, each through one of the fields. -/
theorem Unfolds.exists_paths {fields : List Field} {us : List TypeRef} {sites : List Site}
    (h : r.Unfolds file fields us sites) : ∀ (before : List Field) {path : List Nat} {t : TypeRef},
    r.EmbedsAlong root path t → t.file = file → t.fields = before ++ fields →
      ∃ paths, List.Forall₂ (r.EmbedsAlong root) paths us ∧ paths.Nodup ∧
        ∀ p ∈ paths, ∃ i, before.length ≤ i ∧ i :: path <:+ p := by
  induction h with
  | nil => intro before path t _ _ _; exact ⟨[], .nil, List.nodup_nil, fun _ h => by cases h⟩
  | @own file f rest us sites hf h ih =>
      intro before path t ht hfile hfields
      obtain ⟨paths, halong, hnodup, hpaths⟩ :=
        ih (before ++ [f]) ht hfile (by simp [hfields])
      refine ⟨paths, halong, hnodup, fun p hp => ?_⟩
      obtain ⟨i, hi, hsuffix⟩ := hpaths p hp
      rw [List.length_append] at hi
      exact ⟨i, Nat.le_of_add_right_le hi, hsuffix⟩
  | @embedded file f rest u us others sites more hf _ _ ihu ih =>
      intro before path t ht hfile hfields
      have hu : r.EmbedsAlong root (before.length :: path) u :=
        .step ht (by simp [hfields]) (hfile ▸ hf)
      obtain ⟨inner, halong, hnodup, hinner⟩ := ihu [] hu rfl rfl
      obtain ⟨later, halong', hnodup', hlater⟩ :=
        ih (before ++ [f]) ht hfile (by simp [hfields])
      have hbehind {p : List Nat} (hp : p ∈ later) : ¬ before.length :: path <:+ p := by
        intro hsuffix
        obtain ⟨i, hi, hsuffix'⟩ := hlater p hp
        obtain rfl := eq_of_suffix hsuffix hsuffix'
        rw [List.length_append] at hi
        exact Nat.not_succ_le_self _ hi
      have hthrough {p : List Nat} (hp : p ∈ inner) : before.length :: path <:+ p := by
        obtain ⟨i, -, hsuffix⟩ := hinner p hp
        exact (List.suffix_cons i _).trans hsuffix
      refine ⟨(before.length :: path) :: inner ++ later,
        .cons hu (List.rel_append halong halong'), ?_, ?_⟩
      · refine List.nodup_append.2 ⟨List.nodup_cons.2 ⟨fun hmem => ?_, hnodup⟩, hnodup', ?_⟩
        · -- what is reached through the struct is farther away than the struct
          obtain ⟨i, -, hsuffix⟩ := hinner _ hmem
          have hlonger := hsuffix.length_le
          simp only [List.length_cons] at hlonger
          omega
        · rintro p hp q hq rfl
          rcases List.mem_cons.1 hp with rfl | hp
          · exact hbehind hq List.suffix_rfl
          · exact hbehind hq (hthrough hp)
      · intro p hp
        simp only [List.cons_append, List.mem_cons, List.mem_append] at hp
        rcases hp with rfl | hp | hp
        · exact ⟨before.length, Nat.le_refl _, List.suffix_rfl⟩
        · exact ⟨before.length, Nat.le_refl _, hthrough hp⟩
        · obtain ⟨i, hi, hsuffix⟩ := hlater p hp
          rw [List.length_append] at hi
          exact ⟨i, Nat.le_of_add_right_le hi, hsuffix⟩

/-- Structs that are reached along different ways have distinct keys. -/
private theorem EmbedsOnce.nodup_keys_of_paths (honce : r.EmbedsOnce root) {paths : List (List Nat)}
    {us : List TypeRef} (h : List.Forall₂ (r.EmbedsAlong root) paths us) (hpaths : paths.Nodup) :
    (keys us).Nodup ∧ ∀ key ∈ keys us, ∃ p ∈ paths, ∃ u, r.EmbedsAlong root p u ∧
      u.key = some key := by
  induction h with
  | nil => exact ⟨List.nodup_nil, fun _ h => by cases h⟩
  | @cons p u paths us hu _ ih =>
      obtain ⟨hnew, hpaths⟩ := List.nodup_cons.1 hpaths
      obtain ⟨hnodup, hreached⟩ := ih hpaths
      rw [TypeRef.keys_cons]
      cases hkey : u.key with
      | none =>
          refine ⟨hnodup, fun key hmem => ?_⟩
          obtain ⟨q, hq, hv⟩ := hreached key hmem
          exact ⟨q, List.mem_cons_of_mem _ hq, hv⟩
      | some k =>
          refine ⟨List.nodup_cons.2 ⟨fun hmem => ?_, hnodup⟩, fun key hmem => ?_⟩
          · obtain ⟨q, hq, v, hv, hvkey⟩ := hreached k hmem
            obtain rfl := honce _ _ _ _ _ hu hv hkey hvkey
            exact hnew hq
          · rcases List.mem_cons.1 hmem with rfl | hmem
            · exact ⟨p, List.mem_cons_self, u, hu, hkey⟩
            · obtain ⟨q, hq, hv⟩ := hreached key hmem
              exact ⟨q, List.mem_cons_of_mem _ hq, hv⟩

/-- **A struct that reaches no key twice unfolds**, and the structs that it is made of, itself among
them, have distinct keys. -/
theorem EmbedsOnce.exists_unfolds (honce : r.EmbedsOnce root) :
    ∃ us sites, r.Unfolds root.file root.fields us sites ∧ (keys (root :: us)).Nodup := by
  obtain ⟨us, sites, h⟩ := honce.exists_unfolds_of_room (r.graph.types.length + 1) .root
    (by simp)
  obtain ⟨paths, halong, hnodup, hpaths⟩ := h.exists_paths [] .root rfl rfl
  have hnew : [] ∉ paths := by
    intro hmem
    obtain ⟨i, -, hsuffix⟩ := hpaths [] hmem
    cases List.suffix_nil.1 hsuffix
  exact ⟨us, sites, h,
    (honce.nodup_keys_of_paths (.cons .root halong) (List.nodup_cons.2 ⟨hnew, hnodup⟩)).1⟩

end Resolver

end SchemaWeave
