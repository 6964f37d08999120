import SchemaWeave.Proofs.Resolving.Exposure
import SchemaWeave.Proofs.Schema.Flaws

/-!
Where hard errors come from. A hard error is made for a name that nothing is found under, and the
schema of a type has one if such a name is written into it, or a name that leads to a type with one
and becomes no reference (`Resolver.FaultyIn`). Along a shortest way to an error nothing is met
twice, so the recursion bound does not hide it (`Resolver.Faulty.not_sound`). In the list of a
composition's properties there may be more, looked up behind a reference; but then some registered
type is faulty, so where the inline schemas of the registered types are sound, nothing is overlooked
in any schema (`Resolver.chainSchema_overt`).
-/

namespace SchemaWeave

open Schema (Tracks sound_tracks flawless_tracks)
open SchemaWeave.Graph (IsLoose)

namespace Resolver

variable {r : Resolver} {next : TypeRef → Bool → Schema} {t u d k : TypeRef} {chain : List String}
  {f : Field} {P : Schema → Prop}

/-! ### The schema of a shape -/

/-- The type expressions that are written into the schema of a type: its own, or those of its fields
that are embedded or have a name as a property. -/
def shown (r : Resolver) (t : TypeRef) : List TypeExpr :=
  match t.shape with
  | .expr e => [e]
  | .struct fields =>
    (fields.filter fun f => isSpliced f || (r.propertyName f).isSome).map Field.type

/-- What is found in a file under the name that stands in a type expression, if one does. -/
def lookUp (g : Graph) (file : String) (e : TypeExpr) : Option (Option TypeRef) :=
  e.innermost?.map fun (qualifier, name) => g.resolveInFile file qualifier name

/-- What is found under the names that are written into the schema of a type. -/
def finds (r : Resolver) (t : TypeRef) : List (Option TypeRef) :=
  (r.shown t).filterMap (lookUp r.graph t.file)

theorem isFound_of_mem_finds (h : some u ∈ r.finds t) : r.graph.IsFound u := by
  obtain ⟨e, -, he⟩ := List.mem_filterMap.1 h
  obtain ⟨⟨qualifier, name⟩, -, hfound⟩ := Option.map_eq_some_iff.1 he
  exact Graph.isFound_resolveInFile hfound

theorem innermost?_of_name? (e : TypeExpr) {name : Option String × String}
    (h : e.name? = some name) : e.innermost? = some name := by
  induction e with
  | pointer target ih => exact ih h
  | named | qualified => exact h
  | array | scalar | interface | func => cases h

theorem mem_finds_of_next? (h : r.graph.next? t = some u) : some u ∈ r.finds t := by
  unfold Graph.next? at h
  split at h
  next e hshape =>
    obtain ⟨name, hname, hfound⟩ := Option.bind_eq_some_iff.1 h
    refine List.mem_filterMap.2 ⟨e, by simp [shown, hshape], ?_⟩
    exact Option.map_eq_some_iff.2 ⟨name, innermost?_of_name? e hname, hfound⟩
  next => cases h

/-- The schema of a type expression has no hard error if something is found under its name, with a
schema that has none. -/
theorem exprSchema_tracks (h : Tracks P) (e : TypeExpr) : ∀ t : TypeRef,
    P (Id.run (exprSchema r next t e)) ↔
      ∀ found ∈ lookUp r.graph t.file e, ∃ u, found = some u ∧ P (next u false) := by
  have hname (doc shown : String) (found : Option TypeRef) :
      P (Id.run (resolveName next doc shown found)) ↔ ∃ u, found = some u ∧ P (next u false) := by
    cases found with
    | none =>
        refine iff_of_false (fun hP => ?_) (by simp)
        cases (h.error _ _).1 hP
    | some u =>
        rw [resolveName, Id.run_bind, Id.run_pure, h.describe]
        simp only [Option.some.injEq, exists_eq_left']
        rfl
  induction e with
  | pointer target ih => exact ih
  | array element ih =>
      intro t
      rw [exprSchema, Id.run_bind, Id.run_pure, h.describe, h.array]
      exact ih (.anonymous t.file element)
  | named name =>
      intro t
      rw [exprSchema, hname]
      simp [lookUp, TypeExpr.innermost?]
  | qualified package name =>
      intro t
      rw [exprSchema, hname]
      simp [lookUp, TypeExpr.innermost?]
  | scalar kind =>
      intro t
      rw [exprSchema, Id.run_pure, h.describe]
      exact iff_of_true (h.scalar _) (by simp [lookUp, TypeExpr.innermost?])
  | interface =>
      intro t
      rw [exprSchema, Id.run_pure, h.describe]
      exact iff_of_true (h.any _) (by simp [lookUp, TypeExpr.innermost?])
  | func =>
      intro t
      exact iff_of_true (h.softError _) (by simp [lookUp, TypeExpr.innermost?])

/-- What a field adds to the properties and the members of its struct has no hard error if the
schema of the field has none, or is not written. -/
theorem fieldParts_tracks (h : Tracks P) (file : String) (f : Field) :
    ((∀ m ∈ (r.fieldParts next file f).properties, P m.schema) ∧
        ∀ s ∈ (r.fieldParts next file f).members, P s) ↔
      ((isSpliced f || (r.propertyName f).isSome) = true → P (r.fieldSchema next file f)) := by
  cases hspliced : isSpliced f with
  | false =>
      rw [fieldParts_plain hspliced]
      cases r.propertyName f <;> simp
  | true =>
      by_cases hobject : ∃ properties description sample modifiers,
          r.fieldSchema next file f = .object properties description sample modifiers
      · obtain ⟨properties, description, sample, modifiers, hs⟩ := hobject
        rw [fieldParts_object hspliced hs, hs]
        simp [h.object]
      · simp only [not_exists] at hobject
        rw [fieldParts_member hspliced hobject]
        simp

/-- What is found under the names that are written into the schema of a type is what is found under
those of its fields, or under its own. -/
theorem forall_finds_struct {fields : List Field} (hshape : t.shape = .struct fields)
    {Q : Option TypeRef → Prop} :
    (∀ found ∈ r.finds t, Q found) ↔
      ∀ f ∈ fields, (isSpliced f || (r.propertyName f).isSome) = true →
        ∀ found ∈ lookUp r.graph t.file f.type, Q found := by
  simp only [finds, shown, hshape, List.mem_filterMap, List.mem_map, List.mem_filter]
  constructor
  · exact fun h f hf hshown found hfound => h found ⟨_, ⟨f, ⟨hf, hshown⟩, rfl⟩, hfound⟩
  · rintro h found ⟨_, ⟨f, ⟨hf, hshown⟩, rfl⟩, hfound⟩
    exact h f hf hshown found hfound

/-- The parts of a struct but for the list of its members' properties have no hard error if
something is found under every name that is written, with a schema that has none. -/
theorem structParts_tracks (h : Tracks P) {fields : List Field}
    (hshape : t.shape = .struct fields) :
    ((∀ m ∈ (r.structParts next t.file fields).properties, P m.schema) ∧
        ∀ s ∈ (r.structParts next t.file fields).members, P s) ↔
      ∀ found ∈ r.finds t, ∃ u, found = some u ∧ P (next u false) := by
  rw [forall_finds_struct hshape]
  have hfield (f : Field) := @fieldParts_tracks r next P h t.file f
  have hexpr (f : Field) : P (r.fieldSchema next t.file f) ↔
      ∀ found ∈ lookUp r.graph t.file f.type, ∃ u, found = some u ∧ P (next u false) :=
    exprSchema_tracks h f.type (f.ref t.file)
  simp only [hexpr] at hfield
  simp only [structParts, List.mem_flatMap, forall_exists_index, and_imp]
  constructor
  · intro hparts f hf
    exact (hfield f).1 ⟨fun m hm => hparts.1 m f hf hm, fun s hs => hparts.2 s f hf hs⟩
  · intro hfound
    exact ⟨fun m f hf hm => ((hfield f).2 (hfound f hf)).1 m hm,
      fun s f hf hs => ((hfield f).2 (hfound f hf)).2 s hs⟩

theorem sound_toSchema (parts : Parts) (doc : String) :
    (parts.toSchema doc).Sound ↔
      (∀ m ∈ parts.properties, m.schema.Sound) ∧ ∀ s ∈ parts.members, s.Sound := by
  unfold Parts.toSchema
  split
  next hmembers =>
    rw [sound_tracks.describe, sound_tracks.object, List.isEmpty_iff.1 hmembers]
    simp
  next =>
    rw [Schema.sound_allOf, List.forall_mem_append, List.forall_mem_singleton,
      sound_tracks.describe, sound_tracks.object, and_comm]

/-- **The hard errors that are looked for** in the schema of a shape are those for names that
nothing is found under, and those in the schemas of what is found. -/
theorem sound_shape_iff : (Id.run (shapeSchema r next t)).Sound ↔
    ∀ found ∈ r.finds t, ∃ u, found = some u ∧ (next u false).Sound := by
  cases hshape : t.shape with
  | struct fields =>
      rw [shapeSchema_struct hshape, sound_toSchema, structParts_tracks sound_tracks hshape]
  | expr e =>
      have hrun : Id.run (shapeSchema r next t) = Id.run (exprSchema r next t e) := by
        simp only [shapeSchema, hshape]
      rw [hrun, exprSchema_tracks sound_tracks]
      simp [finds, shown, hshape]

theorem flawless_toSchema {parts : Parts} (doc : String)
    (hproperties : ∀ m ∈ parts.properties, m.schema.Flawless)
    (hmembers : ∀ s ∈ parts.members, s.Flawless)
    (hflattened : ∀ m ∈ parts.flattened, m.schema.Flawless) : (parts.toSchema doc).Flawless := by
  have hobject : ((Schema.object parts.properties none none []).describe doc).Flawless :=
    (flawless_tracks.describe _ _).2 ((flawless_tracks.object _ _ _ _).2 hproperties)
  unfold Parts.toSchema
  split
  · exact hobject
  · rw [Schema.flawless_allOf, List.forall_mem_append, List.forall_mem_append,
      List.forall_mem_singleton]
    exact ⟨⟨hmembers, hobject⟩, hflattened, hproperties⟩

/-- **All hard errors** in the schema of a shape are for names that nothing is found under, in the
schemas of what is found, or in the properties of a definition behind a reference. -/
theorem flawless_shape
    (hfound : ∀ found ∈ r.finds t, ∃ u, found = some u ∧ (next u false).Flawless)
    (hlooked : ∀ f ∈ t.fields, isSpliced f = true → ∀ target d,
      r.fieldSchema next t.file f = .ref target → r.definition? (f.ref t.file) = some d →
        ∀ m ∈ (next d true).properties?.getD [], m.schema.Flawless) :
    (Id.run (shapeSchema r next t)).Flawless := by
  cases hshape : t.shape with
  | expr e =>
      simp only [shapeSchema, hshape]
      rw [exprSchema_tracks flawless_tracks]
      simpa [finds, shown, hshape] using hfound
  | struct fields =>
      obtain ⟨hproperties, hmembers⟩ := (structParts_tracks flawless_tracks hshape).2 hfound
      rw [shapeSchema_struct hshape]
      refine flawless_toSchema _ hproperties hmembers fun m hm => ?_
      obtain ⟨f, hf, hm⟩ := List.mem_flatMap.1 hm
      have hmem : f ∈ t.fields := by simpa [TypeRef.fields, hshape] using hf
      -- only an embedded field that becomes a member has its properties listed
      by_cases hspliced : isSpliced f = true
      · rcases fieldParts_spliced r next t.file hspliced with hparts | ⟨-, hparts⟩ <;>
          rw [hparts] at hm
        · cases hm
        · rcases mem_projected hm with hm | ⟨target, d, href, hd, hm⟩
          · refine Schema.Flawless.of_property (hmembers _ (List.mem_flatMap.2 ⟨f, hf, ?_⟩)) hm
            rw [hparts]
            exact List.mem_singleton.2 rfl
          · exact hlooked f hmem hspliced target d href hd m hm
      · rw [fieldParts_plain (Bool.eq_false_iff.2 hspliced)] at hm
        cases hm

/-! ### Types with a hard error -/

/-- A hard error stands in the schema of a type, in so many steps: a name that is written leads
nowhere, or to a type with one that becomes no reference. -/
inductive FaultyIn (r : Resolver) : Nat → TypeRef → Prop where
  | unknown {t : TypeRef} (h : none ∈ r.finds t) : FaultyIn r 0 t
  | found {n : Nat} {t u : TypeRef} (hu : some u ∈ r.finds t) (hopen : r.targetOf? u = none)
      (h : FaultyIn r n u) : FaultyIn r (n + 1) t

/-- A hard error stands in the schema of a type. -/
def Faulty (r : Resolver) (t : TypeRef) : Prop := ∃ n, r.FaultyIn n t

/-- A type with a hard error has one in its shape, on every chain that has room for the types that
are nearer to it. -/
theorem FaultyIn.not_sound_shape (n : Nat) : ∀ {chain : List String} {t : TypeRef},
    r.FaultyIn n t →
      (∀ u, r.graph.IsFound u → Nearer r.FaultyIn n u → r.HasRoom chain u) →
      ¬ (r.shapeOnChain r.chainSchema chain t).Sound := by
  induction n using Nat.strongRecOn with
  | _ n ih =>
      intro chain t h hroom hsound
      have hfinds := sound_shape_iff.1 hsound
      cases h with
      | unknown h =>
          obtain ⟨u, hu, -⟩ := hfinds none h
          cases hu
      | @found m _ u hu hopen h =>
          obtain ⟨v, hv, hsound⟩ := hfinds (some u) hu
          obtain rfl := Option.some.inj hv
          have hfound := isFound_of_mem_finds hu
          have hopens : r.Opens chain u false :=
            ⟨.inr hopen, hroom u hfound fun _ _ => ⟨m, Nat.lt_succ_self m, h⟩⟩
          rw [chainSchema_eq, enterOnChain_of_opens hopens] at hsound
          -- along a shortest way from there the type itself is not met again
          obtain ⟨l, hl, hleast, hshortest⟩ := exists_shortest h
          refine ih l (by omega) hleast (fun v hv hnearer => ?_) hsound
          refine (hroom v hv (hnearer.mono (by omega))).of_key_ne fun key hukey hvkey => ?_
          rw [hv.eq_of_key hfound hvkey hukey] at hnearer
          exact hshortest hnearer

/-- **The inline schema of a type with a hard error has one**, if the recursion bound lets the type
be entered at all. -/
theorem Faulty.not_sound (h : r.Faulty t) (ht : r.graph.IsFound t)
    (hbound : 0 < r.options.recursionBound) : ¬ (r.chainSchema [] t true).Sound := by
  obtain ⟨n, h⟩ := h
  obtain ⟨l, -, hleast, hshortest⟩ := exists_shortest h
  have hroom (u : TypeRef) : r.HasRoom [] u := fun _ _ => hbound
  rw [chainSchema_eq, enterOnChain_of_opens ⟨.inl rfl, hroom t⟩]
  refine hleast.not_sound_shape l fun u hu hnearer => ?_
  refine (hroom u).of_key_ne fun key htkey hukey => ?_
  rw [hu.eq_of_key ht hukey htkey] at hnearer
  exact hshortest hnearer

/-! ### Behind a reference -/

theorem next?_of_definitionWithin (g : Graph) (n : Nat) : ∀ {t d : TypeRef},
    definitionWithin g n t = some d → g.next? d = none := by
  induction n with
  | zero => intro t d h; cases h
  | succ n ih =>
      intro t d h
      rw [definitionWithin] at h
      split at h
      · exact ih h
      · obtain ⟨u, -, h⟩ := Option.bind_eq_some_iff.1 h
        exact ih h
      · obtain ⟨u, -, h⟩ := Option.bind_eq_some_iff.1 h
        exact ih h
      · -- the other forms are not names
        rename_i hpointer hnamed hqualified
        obtain rfl : t = d := by simpa using h
        unfold Graph.next?
        split
        next e hshape =>
          cases e with
          | pointer target => exact absurd hshape (hpointer target)
          | named name => exact absurd hshape (hnamed name)
          | qualified package name => exact absurd hshape (hqualified package name)
          | array | scalar | interface | func => rfl
        next => rfl

/-- A type that leads to one with a hard error has one itself, or a registered type on the way
has. -/
theorem Faulty.of_leads (hd : r.Faulty d) (h : r.graph.Leads k d) :
    r.Faulty k ∨ ∃ u, r.graph.IsFound u ∧ r.targetOf? u ≠ none ∧ r.Faulty u := by
  induction h using Relation.ReflTransGen.head_induction_on with
  | refl => exact .inl hd
  | @head k u hu _ ih =>
      refine ih.elim (fun hfaulty => ?_) .inr
      by_cases hopen : r.targetOf? u = none
      · obtain ⟨n, hn⟩ := hfaulty
        exact .inl ⟨n + 1, .found (mem_finds_of_next? hu) hopen hn⟩
      · exact .inr ⟨u, Graph.isFound_next? hu, hopen, hfaulty⟩

/-- Where the definition behind a reference has a hard error, some registered type has. -/
theorem Refers.exists_faulty {n : Nat} (hk : r.Refers n t k) (hd : r.definition? t = some d)
    (hleads : r.graph.Leads t d) (h : r.Faulty d) :
    ∃ u, r.graph.IsFound u ∧ r.targetOf? u ≠ none ∧ r.Faulty u := by
  -- both stand on the one way that goes on from the type, and the definition ends it
  have hkd : r.graph.Leads k d := by
    have hunique : Relator.RightUnique fun t u => r.graph.next? t = some u :=
      fun _ _ _ hu hv => Option.some.inj (hu.symm.trans hv)
    rcases Relation.ReflTransGen.total_of_right_unique hunique hk.leads hleads with h | h
    · exact h
    · rcases Relation.ReflTransGen.cases_head h with rfl | ⟨u, hu, -⟩
      · exact .refl
      · rw [next?_of_definitionWithin r.graph maxHops hd] at hu
        cases hu
  obtain ⟨target, htarget⟩ := hk.exists_target
  exact (h.of_leads hkd).elim (fun hfaulty => ⟨k, hk.isFound, by simp [htarget], hfaulty⟩) id

/-- Where an embedded field refers to a registered type whose definition has properties and a hard
error, some registered type has a hard error. -/
theorem exists_faulty_of_looked {fuel : Nat} {file target : String} {m : Member Schema}
    (href : r.fieldSchema (r.chainSchemaWithin fuel chain) file f = .ref target)
    (hd : r.definition? (f.ref file) = some d)
    (hm : m ∈ (r.chainSchemaWithin fuel chain d true).properties?.getD [])
    (hopens : r.Opens chain d true) (h : r.Faulty d) :
    0 < r.options.recursionBound ∧
      ∃ u, r.graph.IsFound u ∧ r.targetOf? u ≠ none ∧ r.Faulty u := by
  have hdeclared : r.graph.Declares d := by
    refine (definition?_ref_declared hd).resolve_right fun hloose => ?_
    rw [properties?_within_of_loose hloose] at hm
    cases hm
  have hleads : r.graph.Leads (f.ref file) d :=
    (leads_of_definitionWithin r.graph maxHops hd).resolve_right fun hloose =>
      hdeclared.key_ne_none hloose.1
  obtain ⟨declaration, -, rfl⟩ := hdeclared
  rw [fieldSchema_eq] at href
  obtain ⟨n, k, hk, -⟩ := (chainSchemaWithin_routed r fuel chain).refers href
  exact ⟨Nat.zero_lt_of_lt (hopens.room declaration.key rfl), hk.exists_faulty hd hleads h⟩

/-- Only a type that is entered has a schema with a hard error. -/
theorem opens_of_not_flawless {shape : List String → TypeRef → Schema} {inline : Bool}
    (h : ¬ (r.enterOnChain shape chain t inline).Flawless) :
    r.Opens chain t inline ∧
      r.enterOnChain shape chain t inline = shape (entered chain t) t := by
  rcases enterOnChain_cases r shape chain t inline with
    ⟨-, target, -, heq⟩ | hopens | ⟨message, heq⟩
  · rw [heq] at h
    exact absurd (flawless_tracks.ref target) h
  · exact hopens
  · rw [heq] at h
    exact absurd (flawless_tracks.softError message) h

/-- Where no registered type has a hard error, a schema with a hard error is that of a type that has
one, and `hasError` looks where it stands. -/
theorem not_flawless_within
    (hclean : 0 < r.options.recursionBound →
      ∀ u, r.graph.IsFound u → r.targetOf? u ≠ none → ¬ r.Faulty u)
    (fuel : Nat) : ∀ {chain : List String} {t : TypeRef} {inline : Bool},
    ¬ (r.chainSchemaWithin fuel chain t inline).Flawless →
      r.Opens chain t inline ∧ r.Faulty t ∧ ¬ (r.chainSchemaWithin fuel chain t inline).Sound := by
  induction fuel with
  | zero =>
      intro chain t inline hflawed
      obtain ⟨-, heq⟩ := opens_of_not_flawless hflawed
      rw [chainSchemaWithin, heq] at hflawed
      exact absurd (flawless_tracks.softError _) hflawed
  | succ fuel ih =>
      intro chain t inline hflawed
      obtain ⟨hopens, heq⟩ := opens_of_not_flawless hflawed
      rw [chainSchemaWithin, heq] at hflawed ⊢
      refine ⟨hopens, ?_⟩
      -- behind references there is no hard error, so one stands in what is found under a name
      have hlooked : ∀ f ∈ t.fields, isSpliced f = true → ∀ target d,
          r.fieldSchema (r.chainSchemaWithin fuel (entered chain t)) t.file f = .ref target →
          r.definition? (f.ref t.file) = some d →
          ∀ m ∈ (r.chainSchemaWithin fuel (entered chain t) d true).properties?.getD [],
            m.schema.Flawless := by
        intro f hf hspliced target d href hd m hm
        refine Classical.byContradiction fun hnot => ?_
        obtain ⟨hopens, hfaulty, -⟩ := ih fun h => hnot (h.of_property hm)
        obtain ⟨hbound, u, hu, htarget, hfaulty⟩ :=
          exists_faulty_of_looked href hd hm hopens hfaulty
        exact hclean hbound u hu htarget hfaulty
      obtain ⟨found, hmem, hflawed⟩ : ∃ found ∈ r.finds t, ∀ u, found = some u →
          ¬ (r.chainSchemaWithin fuel (entered chain t) u false).Flawless := by
        refine Classical.byContradiction fun hnone => hflawed (flawless_shape ?_ hlooked)
        simpa using hnone
      have hsound (hnot : ∀ u, found = some u →
          ¬ (r.chainSchemaWithin fuel (entered chain t) u false).Sound) :
          ¬ (r.shapeOnChain (r.chainSchemaWithin fuel) (entered chain t) t).Sound := by
        intro hsound
        obtain ⟨u, hu, hsound⟩ := sound_shape_iff.1 hsound found hmem
        exact hnot u hu hsound
      cases found with
      | none => exact ⟨⟨0, .unknown hmem⟩, hsound (by simp)⟩
      | some u =>
          obtain ⟨hopens, ⟨n, hn⟩, hnot⟩ := ih (hflawed u rfl)
          have hopen := hopens.written.resolve_left Bool.false_ne_true
          refine ⟨⟨n + 1, .found hmem hopen hn⟩, hsound fun v hv => ?_⟩
          obtain rfl := Option.some.inj hv
          exact hnot

/-- **Nothing is overlooked**: where the inline schemas of the registered types have no hard error
that is looked for, a schema that has a hard error anywhere has one that is looked for. -/
theorem chainSchema_overt
    (h : ∀ u, r.graph.IsFound u → r.targetOf? u ≠ none → (r.chainSchema [] u true).Sound)
    (chain : List String) (t : TypeRef) (inline : Bool) : (r.chainSchema chain t inline).Overt := by
  intro hsound
  refine Classical.byContradiction fun hflawed => (not_flawless_within ?_ _ hflawed).2.2 hsound
  exact fun hbound u hu htarget hfaulty => hfaulty.not_sound hu hbound (h u hu htarget)

end Resolver

end SchemaWeave
