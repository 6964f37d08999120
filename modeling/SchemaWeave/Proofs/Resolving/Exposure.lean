import SchemaWeave.Proofs.Schema.Composition

/-!
Which names a type exposes, whatever it stands in. A route leads from a type to a property of its
own, through names that are not registered, embedded fields, and definitions behind references
(`Resolver.Route`). Resolution exposes a name only along a route (`Resolver.chainSchema_routed`).
Along a shortest route nothing is met twice, so it exposes every name for which the types on the way
have room (`Resolver.mem_exposed_of_route`).
-/

namespace SchemaWeave

namespace Graph

variable {g : Graph} {t u : TypeRef}

/-- A type takes in what it is the name of, and what its embedded fields are. -/
inductive Takes (g : Graph) (t : TypeRef) : TypeRef → Prop where
  | named {u : TypeRef} (hu : g.next? t = some u) : Takes g t u
  | embedded {f : Field} (hf : f ∈ t.fields) (hspliced : Resolver.isSpliced f = true) :
      Takes g t (f.ref t.file)

/-- A type takes in another one, directly or through others, or is that type. -/
def TakesIn (g : Graph) : TypeRef → TypeRef → Prop := Relation.ReflTransGen g.Takes

/-- The type has no key, or is the declaration that is found under its key. -/
def IsFound (g : Graph) (t : TypeRef) : Prop :=
  ∀ key ∈ t.key, (g.type? key).map Declaration.ref = some t

theorem IsFound.eq_of_key (ht : g.IsFound t) (hu : g.IsFound u) {key : String}
    (htkey : t.key = some key) (hukey : u.key = some key) : t = u :=
  Option.some.inj ((ht key htkey).symm.trans (hu key hukey))

theorem isFound_lookup {package name : String} (h : g.lookup package name = some t) :
    g.IsFound t := by
  intro key hkey
  obtain ⟨d, hd, rfl⟩ := Option.map_eq_some_iff.1 h
  have hfound : d.key = TypePath.join package name := by simpa using List.find?_some hd
  have hsame : d.key = key := Option.some.inj hkey
  rw [← hsame, hfound, hd, Option.map_some]

theorem isFound_resolveInFile {file name : String} {qualifier : Option String}
    (h : g.resolveInFile file qualifier name = some t) : g.IsFound t := by
  cases qualifier with
  | none =>
      obtain ⟨package, -, hl⟩ := Option.bind_eq_some_iff.1 h
      exact isFound_lookup hl
  | some q =>
      obtain ⟨package, -, hl⟩ := Option.bind_eq_some_iff.1 h
      exact isFound_lookup hl

theorem isFound_next? (h : g.next? t = some u) : g.IsFound u := by
  unfold next? at h
  split at h
  · obtain ⟨⟨qualifier, name⟩, -, hfound⟩ := Option.bind_eq_some_iff.1 h
    exact isFound_resolveInFile hfound
  · cases h

theorem TakesIn.isFound (h : g.TakesIn t u) (ht : g.IsFound t) : g.IsFound u := by
  induction h with
  | refl => exact ht
  | tail _ hstep _ =>
      cases hstep with
      | named hu => exact isFound_next? hu
      | embedded hf hspliced => intro key hkey; cases hkey

theorem Leads.takesIn (h : g.Leads t u) : g.TakesIn t u := by
  induction h with
  | refl => exact .refl
  | tail _ hu ih => exact .tail ih (.named hu)

end Graph

namespace Resolver

variable {r : Resolver} {t u : TypeRef} {chain : List String} {name target : String}

/-- The names of a type lead to a registered one, the first on the way, after so many that are
not. -/
inductive Refers (r : Resolver) : Nat → TypeRef → TypeRef → Prop where
  | here {t k : TypeRef} (hk : r.graph.next? t = some k) (htarget : r.targetOf? k ≠ none) :
      Refers r 0 t k
  | step {n : Nat} {t u k : TypeRef} (hu : r.graph.next? t = some u)
      (hopen : r.targetOf? u = none) (h : Refers r n u k) : Refers r (n + 1) t k

theorem Refers.unique {n m : Nat} {k l : TypeRef} (h : r.Refers n t k) (h' : r.Refers m t l) :
    n = m ∧ k = l := by
  induction h generalizing m with
  | here hk htarget =>
      cases h' with
      | here hl _ => exact ⟨rfl, Option.some.inj (hk.symm.trans hl)⟩
      | step hu hopen _ =>
          cases Option.some.inj (hk.symm.trans hu)
          exact absurd hopen htarget
  | step hu hopen _ ih =>
      cases h' with
      | here hl htarget =>
          cases Option.some.inj (hu.symm.trans hl)
          exact absurd hopen htarget
      | step hu' _ h' =>
          cases Option.some.inj (hu.symm.trans hu')
          exact (ih h').imp (congrArg (· + 1)) id

theorem Refers.exists_target {n : Nat} {k : TypeRef} (h : r.Refers n t k) :
    ∃ target, r.targetOf? k = some target := by
  induction h with
  | here _ htarget => exact Option.ne_none_iff_exists'.1 htarget
  | step _ _ _ ih => exact ih

theorem Refers.leads {n : Nat} {k : TypeRef} (h : r.Refers n t k) : r.graph.Leads t k := by
  induction h with
  | here hk _ => exact .single hk
  | step hu _ _ ih => exact .head hu ih

theorem Refers.isFound {n : Nat} {k : TypeRef} (h : r.Refers n t k) : r.graph.IsFound k := by
  induction h with
  | here hk _ => exact Graph.isFound_next? hk
  | step _ _ _ ih => exact ih

/-- A type exposes a name in so many steps: as a property of its own, through a name that is not
registered, through an embedded field, or at the definition that an embedded field refers to. -/
inductive Route (r : Resolver) (name : String) : Nat → TypeRef → Prop where
  | own {t : TypeRef} {f : Field} (hf : f ∈ t.fields) (hplain : isSpliced f = false)
      (hname : r.propertyName f = some name) : Route r name 0 t
  | named {n : Nat} {t u : TypeRef} (hu : r.graph.next? t = some u)
      (hopen : r.targetOf? u = none) (h : Route r name n u) : Route r name (n + 1) t
  | spliced {n : Nat} {t : TypeRef} {f : Field} (hf : f ∈ t.fields) (hspliced : isSpliced f = true)
      (h : Route r name n (f.ref t.file)) : Route r name (n + 1) t
  | looked {n m : Nat} {t k d : TypeRef} {f : Field} (hf : f ∈ t.fields)
      (hspliced : isSpliced f = true) (hk : r.Refers m (f.ref t.file) k)
      (hd : r.definition? (f.ref t.file) = some d) (h : Route r name n d) : Route r name (n + 1) t

theorem fields_of_next? (h : r.graph.next? t = some u) : t.fields = [] := by
  unfold Graph.next? at h
  split at h
  · next e he => simp [TypeRef.fields, he]
  · cases h

theorem not_route_of_isLoose {n : Nat} (h : Graph.IsLoose t) : ¬ r.Route name n t := by
  have hfields : t.fields = [] := by
    obtain ⟨-, ⟨e, he⟩ | ⟨kind, he⟩ | he | he⟩ := h <;> simp [TypeRef.fields, he]
  have hnext : r.graph.next? t = none := by
    obtain ⟨-, ⟨e, he⟩ | ⟨kind, he⟩ | he | he⟩ := h <;> simp [Graph.next?, he, TypeExpr.name?]
  intro hroute
  cases hroute with
  | named hu => rw [hnext] at hu; cases hu
  | own hf | spliced hf | looked hf => rw [hfields] at hf; cases hf

/-- A type that refers to a registered one exposes nothing by itself. -/
theorem Refers.not_route {n m : Nat} {k : TypeRef} (h : r.Refers n t k) : ¬ r.Route name m t := by
  intro hroute
  induction h generalizing m with
  | here hk htarget =>
      cases hroute with
      | named hu hopen _ =>
          cases Option.some.inj (hk.symm.trans hu)
          exact htarget hopen
      | own hf | spliced hf | looked hf =>
          rw [fields_of_next? hk] at hf
          cases hf
  | step hu _ _ ih =>
      cases hroute with
      | named hu' _ hroute =>
          cases Option.some.inj (hu.symm.trans hu')
          exact ih hroute
      | own hf | spliced hf | looked hf =>
          rw [fields_of_next? hu] at hf
          cases hf

/-- Whatever is exposed is exposed along a route, and whatever is written as a reference refers to a
registered type. -/
structure Routed (r : Resolver) (next : TypeRef → Bool → Schema) : Prop where
  exposed : ∀ t inline name, name ∈ (next t inline).exposed →
    (inline = true ∨ r.targetOf? t = none) ∧ ∃ n, r.Route name n t
  reference : ∀ t target, next t false = .ref target → r.targetOf? t = some target ∨
    r.targetOf? t = none ∧ ∃ n k, r.Refers n t k ∧ r.targetOf? k = some target

section Routed

variable {next : TypeRef → Bool → Schema}

theorem Routed.refers (h : Routed r next)
    (href : Id.run (shapeSchema r next t) = .ref target) :
    ∃ n k, r.Refers n t k ∧ r.targetOf? k = some target := by
  obtain ⟨u, hu, hnext⟩ := shape_eq_ref_iff.1 href
  rcases h.reference u target hnext with htarget | ⟨hopen, n, k, hk, htarget⟩
  · exact ⟨0, u, .here hu (by simp [htarget]), htarget⟩
  · exact ⟨n + 1, k, .step hu hopen hk, htarget⟩

theorem Routed.route_of_name (h : Routed r next) (hu : r.graph.next? t = some u)
    (hname : name ∈ (next u false).exposed) : ∃ n, r.Route name n t := by
  obtain ⟨hopen, n, hroute⟩ := h.exposed u false name hname
  exact ⟨n + 1, .named hu (hopen.resolve_left Bool.false_ne_true) hroute⟩

theorem Routed.route_of_field (h : Routed r next) {f : Field} (hf : f ∈ t.fields)
    (hname : name ∈ r.fieldNames next t.file f) : ∃ n, r.Route name n t := by
  unfold fieldNames at hname
  split at hname
  next hspliced =>
    obtain ⟨m, hm, rfl⟩ := List.mem_map.1 hname
    rcases mem_projected hm with hm | ⟨target, d, href, hd, hm⟩
    · -- the field's own type exposes it, and has no fields
      have hexposed : m.name ∈ (Id.run (shapeSchema r next (f.ref t.file))).exposed :=
        List.mem_map_of_mem hm
      rcases mem_exposed_shape_iff.1 hexposed with ⟨f', hf', -⟩ | ⟨u, hu, hexposed⟩
      · cases hf'
      · obtain ⟨n, hroute⟩ := h.route_of_name hu hexposed
        exact ⟨n + 1, .spliced hf hspliced hroute⟩
    · rw [fieldSchema_eq] at href
      obtain ⟨n, k, hk, -⟩ := h.refers href
      obtain ⟨-, n', hroute⟩ := h.exposed d true m.name (List.mem_map_of_mem hm)
      exact ⟨n' + 1, .looked hf hspliced hk hd hroute⟩
  next hplain =>
    exact ⟨0, .own hf (Bool.eq_false_iff.2 hplain) (Option.mem_toList.1 hname)⟩

theorem Routed.route (h : Routed r next) (hname : name ∈ (Id.run (shapeSchema r next t)).exposed) :
    ∃ n, r.Route name n t := by
  rcases mem_exposed_shape_iff.1 hname with ⟨f, hf, hname⟩ | ⟨u, hu, hname⟩
  · exact h.route_of_field hf hname
  · exact h.route_of_name hu hname

theorem Routed.enter {shape : List String → TypeRef → Schema}
    (hexposed : ∀ chain t name, name ∈ (shape chain t).exposed → ∃ n, r.Route name n t)
    (href : ∀ chain t target, shape chain t = .ref target →
      ∃ n k, r.Refers n t k ∧ r.targetOf? k = some target) (chain : List String) :
    Routed r (r.enterOnChain shape chain) where
  exposed t inline name hname := by
    rcases enterOnChain_cases r shape chain t inline with
      ⟨-, target, -, heq⟩ | ⟨hopens, heq⟩ | ⟨message, heq⟩ <;> rw [heq] at hname
    · cases hname
    · exact ⟨hopens.written, hexposed _ t name hname⟩
    · cases hname
  reference t target hwritten := by
    rcases enterOnChain_cases r shape chain t false with
      ⟨-, target', htarget, heq⟩ | ⟨hopens, heq⟩ | ⟨message, heq⟩ <;> rw [heq] at hwritten
    · cases hwritten
      exact .inl htarget
    · exact .inr ⟨hopens.written.resolve_left Bool.false_ne_true, href _ t target hwritten⟩
    · cases hwritten

end Routed

theorem chainSchemaWithin_routed (r : Resolver) (n : Nat) : ∀ chain,
    Routed r (r.chainSchemaWithin n chain) := by
  induction n with
  | zero => exact Routed.enter (fun _ _ _ h => by cases h) fun _ _ _ h => by cases h
  | succ n ih =>
      exact Routed.enter (fun chain _ _ h => (ih chain).route h) fun chain _ _ h =>
        (ih chain).refers h

/-- **Resolution exposes along routes**: a name is exposed on a chain only if a route leads to
it. -/
theorem chainSchema_routed (r : Resolver) (chain : List String) : Routed r (r.chainSchema chain) :=
  chainSchemaWithin_routed r _ chain

/-- A property that takes a number of steps to reach is reached from the type in fewer of them, if
at all. -/
def Nearer (P : Nat → TypeRef → Prop) (n : Nat) (t : TypeRef) : Prop :=
  ∀ m, P m t → ∃ l < n, P l t

theorem Nearer.mono {P : Nat → TypeRef → Prop} {n m : Nat} (h : Nearer P n t) (hnm : n ≤ m) :
    Nearer P m t :=
  fun _ ht => (h _ ht).imp fun _ ⟨hl, ht⟩ => ⟨Nat.lt_of_lt_of_le hl hnm, ht⟩

/-- Of all numbers of steps one is least. -/
theorem exists_shortest {P : Nat → TypeRef → Prop} {n : Nat} (h : P n t) :
    ∃ m ≤ n, P m t ∧ ¬ Nearer P m t := by
  induction n using Nat.strongRecOn with
  | _ n ih =>
      by_cases hnearer : Nearer P n t
      · obtain ⟨l, hl, hless⟩ := hnearer n h
        obtain ⟨m, hm, hleast⟩ := ih l hl hless
        exact ⟨m, by omega, hleast⟩
      · exact ⟨n, Nat.le_refl n, h, hnearer⟩

section Room

variable {root : TypeRef} (hroot : r.graph.IsFound root)

include hroot

/-- Entering one type takes no room from another. -/
theorem HasRoom.of_ne (ht : r.graph.TakesIn root t) (hu : r.graph.TakesIn root u) (hne : u ≠ t)
    (hroom : r.HasRoom chain u) : r.HasRoom (entered chain t) u :=
  hroom.of_key_ne fun _ htkey hukey =>
    hne ((hu.isFound hroot).eq_of_key (ht.isFound hroot) hukey htkey)

/-- A type that refers to a registered one is written as a reference, if there is room for the types
on the way. -/
theorem shape_eq_ref_of_refers {k : TypeRef} (htarget : r.targetOf? k = some target) (n : Nat) :
    ∀ {chain : List String} {t : TypeRef}, r.graph.TakesIn root t → r.Refers n t k →
      (∀ u, r.graph.TakesIn root u → (∃ m < n, r.Refers m u k) → r.HasRoom chain u) →
      r.shapeOnChain r.chainSchema chain t = .ref target := by
  induction n with
  | zero =>
      intro chain t ht h hroom
      cases h with
      | here hk _ =>
          refine shape_eq_ref_iff.2 ⟨k, hk, ?_⟩
          rw [chainSchema_eq, enterOnChain_of_target htarget]
  | succ n ih =>
      intro chain t ht h hroom
      cases h with
      | @step _ _ u _ hu hopen h =>
          have htu : r.graph.TakesIn root u := .tail ht (.named hu)
          refine shape_eq_ref_iff.2 ⟨u, hu, ?_⟩
          rw [chainSchema_eq,
            enterOnChain_of_opens ⟨.inr hopen, hroom u htu ⟨n, Nat.lt_succ_self n, h⟩⟩]
          refine ih htu h fun v hv ⟨m, hm, hrefers⟩ => ?_
          have hne : v ≠ u := by
            rintro rfl
            have := (h.unique hrefers).1
            omega
          exact HasRoom.of_ne hroot htu hv hne (hroom v hv ⟨m, by omega, hrefers⟩)

/-- A name that the shape of a type exposes is exposed by the type, if there is room to enter it. -/
theorem mem_exposed_of_entered {inline : Bool} {m : Nat}
    (hshape : ∀ n ≤ m, ∀ {chain : List String} {t : TypeRef}, r.graph.TakesIn root t →
      r.Route name n t →
      (∀ u, r.graph.TakesIn root u → Nearer (r.Route name) n u → r.HasRoom chain u) →
      name ∈ (r.shapeOnChain r.chainSchema chain t).exposed)
    (hwritten : inline = true ∨ r.targetOf? t = none) (ht : r.graph.TakesIn root t)
    (h : r.Route name m t)
    (hroom : ∀ u, r.graph.TakesIn root u → Nearer (r.Route name) (m + 1) u → r.HasRoom chain u) :
    name ∈ (r.chainSchema chain t inline).exposed := by
  have hopens : r.HasRoom chain t := hroom t ht fun _ _ => ⟨m, Nat.lt_succ_self m, h⟩
  -- along a shortest route from there the type itself is not met again
  obtain ⟨n, hn, hroute, hshortest⟩ := exists_shortest h
  rw [chainSchema_eq, enterOnChain_of_opens ⟨hwritten, hopens⟩]
  refine hshape n hn ht hroute fun u hu hnearer => ?_
  have hne : u ≠ t := by
    rintro rfl
    exact hshortest hnearer
  exact HasRoom.of_ne hroot ht hu hne (hroom u hu (hnearer.mono (by omega)))

/-- **Resolution exposes along short routes**: a name that a type exposes in so many steps is
exposed on every chain that has room for the types that are nearer to it. -/
theorem mem_exposed_of_route (n : Nat) : ∀ {chain : List String} {t : TypeRef},
    r.graph.TakesIn root t → r.Route name n t →
      (∀ u, r.graph.TakesIn root u → Nearer (r.Route name) n u → r.HasRoom chain u) →
      name ∈ (r.shapeOnChain r.chainSchema chain t).exposed := by
  induction n using Nat.strongRecOn with
  | _ n ih =>
      intro chain t ht h hroom
      have henter {m : Nat} {u : TypeRef} {inline : Bool} (hm : m < n)
          (hwritten : inline = true ∨ r.targetOf? u = none) (hu : r.graph.TakesIn root u)
          (hroute : r.Route name m u) : name ∈ (r.chainSchema chain u inline).exposed :=
        mem_exposed_of_entered hroot (fun l hl => ih l (by omega)) hwritten hu hroute
          fun v hv hnearer => hroom v hv (hnearer.mono hm)
      refine mem_exposed_shape_iff.2 ?_
      cases h with
      | own hf hplain hname =>
          exact .inl ⟨_, hf, by simp [fieldNames, hplain, hname]⟩
      | named hu hopen h =>
          exact .inr ⟨_, hu, henter (Nat.lt_succ_self _) (.inr hopen) (.tail ht (.named hu)) h⟩
      | spliced hf hspliced h =>
          refine .inl ⟨_, hf, ?_⟩
          rw [fieldNames, if_pos hspliced]
          refine mem_projected_of_exposed ?_
          rw [fieldSchema_eq]
          exact ih _ (Nat.lt_succ_self _) (.tail ht (.embedded hf hspliced)) h fun u hu hnearer =>
            hroom u hu (hnearer.mono (Nat.le_succ _))
      | @looked _ m _ k d f hf hspliced hk hd h =>
          have hfield : r.graph.TakesIn root (f.ref t.file) := .tail ht (.embedded hf hspliced)
          have hdef : r.graph.TakesIn root d := by
            rcases leads_of_definitionWithin r.graph maxHops hd with hleads | hloose
            · exact hfield.trans hleads.takesIn
            · exact absurd h (not_route_of_isLoose hloose)
          obtain ⟨target, htarget⟩ := hk.exists_target
          have href : r.fieldSchema (r.chainSchema chain) t.file f = .ref target := by
            refine shape_eq_ref_of_refers hroot htarget m hfield hk fun u hu ⟨_, _, hrefers⟩ => ?_
            exact hroom u hu fun _ hroute => absurd hroute hrefers.not_route
          refine .inl ⟨f, hf, ?_⟩
          rw [fieldNames, if_pos hspliced, projected_of_ref href hd]
          exact henter (Nat.lt_succ_self _) (.inl rfl) hdef h

end Room

end Resolver

end SchemaWeave
