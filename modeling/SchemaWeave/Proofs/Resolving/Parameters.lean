import SchemaWeave.Proofs.Resolving.Chain
import SchemaWeave.Proofs.Resolving.Walking
import SchemaWeave.Schema.Params

/-!
The parameters of a struct. Collecting them is the depth-first walk through the struct
(`Resolver.Walks.collect_answers`), so they are those of the sites on that walk, whatever embeds
what (`Resolver.params_walk`). Where the struct unfolds they are those of the sites that it unfolds
into (`Resolver.params_answers`), and an embedded struct contributes the parameters that it has by
itself (`Resolver.params_embedding`). One thing does not come along: the place that the
documentation of the embedded struct names for its fields. It is the struct asked for that gives a
place to the fields that have none of their own.
-/

namespace SchemaWeave

open TypeRef (keys)

/-- The parameter that a field makes. Its place is the one that the field itself names. -/
structure Parameter where
  name : String
  place : Option Node
  description : String
  required : Option Node
  schema : Schema

/-- The value of a parameter, with a place for one that names none. -/
def Parameter.toValue (place : Option Node) (p : Parameter) : Value :=
  let entry (key : String) (node : Option Node) : Bindings :=
    node.toList.map fun n => (key, Value.ofNode n)
  .map (("name", .string p.name) :: entry "in" (p.place.or place) ++
    [("description", .string p.description)] ++ entry "required" p.required ++
    [("schema", .schema p.schema)])

/-- A place makes a difference to a parameter that names none. -/
theorem Parameter.toValue_none_eq_iff {p : Parameter} {place : Option Node} :
    p.toValue none = p.toValue place ↔ place = none ∨ p.place ≠ none := by
  cases place with
  | none => simp
  | some n =>
      cases hplace : p.place with
      | some own => simp [toValue, hplace]
      | none =>
          simp only [toValue, hplace, reduceCtorEq, ne_eq, not_true_eq_false, or_false, iff_false]
          intro heq
          have hlength := congrArg List.length (Value.map.inj heq)
          simp at hlength

/-- The place that the documentation of a struct names. -/
def TypeRef.place (t : TypeRef) : Option Node := Entries.get? "in" t.doc.metadata

namespace Resolver

variable {r : Resolver} {chain : List String} {place : Option Node} {file : String} {t b : TypeRef}
  {fields before after : List Field} {f : Field} {us : List TypeRef} {sites : List Site}

/-- The parameter that the field at a site makes on a chain, unless it is left out. -/
def parameter? (r : Resolver) (chain : List String) (s : Site) : Option Parameter :=
  (r.paramName s.field).map fun name =>
    { name := name
      place := Entries.get? "in" s.field.doc.metadata
      description := s.field.doc.full
      required := Entries.get? "required" s.field.doc.metadata
      schema := r.chainSchema chain (s.field.ref s.file) false }

def parameters (r : Resolver) (chain : List String) (sites : List Site) : List Parameter :=
  sites.filterMap (r.parameter? chain)

theorem parameters_append (chain : List String) (sites others : List Site) :
    r.parameters chain (sites ++ others) = r.parameters chain sites ++ r.parameters chain others :=
  List.filterMap_append

theorem param_answers (r : Resolver) (chain : List String) (place : Option Node) (file : String)
    (f : Field) : AnswersOn chain (r.param place file f)
      ((r.parameter? chain ⟨file, f⟩).map (Parameter.toValue place)) := by
  unfold param parameter?
  cases r.paramName f with
  | none => exact answersOn_pure chain none
  | some name =>
      refine ((typeSchema_follows r (f.ref file) false).answersOn chain).bind ?_
      exact answersOn_pure chain _

/-- Adds the parameters of one field: those of the struct that it takes in, or its own. -/
def collectField (r : Resolver) (place : Option Node) (fuel : Nat) (file : String) (c : Collected)
    (f : Field) : Resolving Collected :=
  match r.embedded? file f with
  | some inner => collect r place fuel c inner
  | none => do
    let entry ← r.param place file f
    return { c with params := c.params ++ entry.toList }

/-- What is collected when the given structs and parameters are added. -/
def Collected.extend (c : Collected) (ts : List TypeRef) (ps : List Value) : Collected :=
  ⟨metWith ts c.seen, c.params ++ ps⟩

theorem Collected.extend_extend (c : Collected) (ts us : List TypeRef) (ps qs : List Value) :
    (c.extend ts ps).extend us qs = c.extend (ts ++ us) (ps ++ qs) := by
  simp [extend, metWith_append]

/-- A struct that was not met before is gone through field by field. -/
theorem collect_of_not_isMet {c : Collected} (h : ¬ IsMet c.seen t) (fuel : Nat) :
    r.collect place (fuel + 1) c t =
      t.fields.foldlM (r.collectField place fuel t.file) (c.extend [t] []) := by
  have hseen : t.key.any c.seen.contains = false := by
    cases hkey : t.key with
    | none => rfl
    | some key => simpa [IsMet, hkey] using h
  have hextend : c.extend [t] [] = { c with seen := t.key.toList ++ c.seen } := by
    cases hkey : t.key <;> simp [Collected.extend, metWith, hkey]
  rw [collect, hseen, hextend]
  rfl

/-- A struct that was met before adds nothing, whether or not fuel is left. -/
theorem collect_of_isMet {c : Collected} (h : IsMet c.seen t) (fuel : Nat) :
    r.collect place fuel c t = pure c := by
  obtain ⟨key, hmem, hkey⟩ := h
  cases fuel with
  | zero => rfl
  | succ fuel =>
      have hseen : t.key.any c.seen.contains = true := by simpa [hkey] using hmem
      rw [collect, hseen]
      rfl

/-- **Going through the fields is the walk through them**, with fuel for each struct that is
entered. -/
theorem Walks.collect_answers {met : List String} (h : r.Walks met file fields us sites)
    (chain : List String) (place : Option Node) : ∀ (fuel : Nat) (c : Collected),
      us.length ≤ fuel → c.seen = met →
        AnswersOn chain (fields.foldlM (r.collectField place fuel file) c)
          (c.extend us ((r.parameters chain sites).map (Parameter.toValue place))) := by
  induction h with
  | nil =>
      intro fuel c _ _
      simpa [parameters, Collected.extend, metWith] using answersOn_pure chain c
  | @own met file f rest us sites hf _ ih =>
      intro fuel c hfuel hmet
      have hfield : AnswersOn chain (r.collectField place fuel file c f)
          (c.extend [] ((r.parameter? chain ⟨file, f⟩).map (Parameter.toValue place)).toList) := by
        simp only [collectField, hf]
        exact (param_answers r chain place file f).bind (answersOn_pure chain _)
      have hall := hfield.bind (b := rest.foldlM (r.collectField place fuel file))
        (ih fuel _ hfuel hmet)
      rw [Collected.extend_extend] at hall
      rw [List.foldlM_cons]
      cases hparameter : r.parameter? chain ⟨file, f⟩ <;>
        simpa [parameters, hparameter] using hall
  | @again met file f rest u us sites hf hold _ ih =>
      intro fuel c hfuel hmet
      have hfield : r.collectField place fuel file c f = pure c := by
        simp only [collectField, hf]
        exact collect_of_isMet (hmet ▸ hold) fuel
      rw [List.foldlM_cons, hfield, pure_bind]
      exact ih fuel c hfuel hmet
  | @enter met file f rest u us others sites more hf hnew _ _ ihu ih =>
      intro fuel c hfuel hmet
      simp only [List.cons_append, List.length_cons, List.length_append] at hfuel
      obtain ⟨k, rfl⟩ : ∃ k, fuel = k + 1 := ⟨fuel - 1, by omega⟩
      have hfield : AnswersOn chain (r.collectField place (k + 1) file c f)
          (c.extend (u :: us) ((r.parameters chain sites).map (Parameter.toValue place))) := by
        simp only [collectField, hf]
        rw [collect_of_not_isMet (hmet ▸ hnew)]
        have hinner := ihu k (c.extend [u] []) (by omega) (by rw [← hmet]; rfl)
        rwa [Collected.extend_extend] at hinner
      have hall := hfield.bind (b := rest.foldlM (r.collectField place (k + 1) file))
        (ih (k + 1) _ (by omega) (by rw [← hmet]; rfl))
      rw [Collected.extend_extend, ← List.map_append, ← parameters_append] at hall
      rwa [List.foldlM_cons]

/-- **The parameters of a struct** are those of the sites on the walk through it, and as many
declarations as there are is fuel enough for it. -/
theorem Walks.collect_struct (h : r.Walks (metWith [t] []) t.file t.fields us sites)
    (chain : List String) {fuel : Nat} (hfuel : r.graph.types.length < fuel) :
    AnswersOn chain (r.collect t.place fuel ⟨[], []⟩ t)
      ⟨metWith (t :: us) [], (r.parameters chain sites).map (Parameter.toValue t.place)⟩ := by
  have hnew : ¬ IsMet [] t := nofun
  obtain ⟨k, rfl⟩ : ∃ k, fuel = k + 1 := ⟨fuel - 1, by omega⟩
  rw [collect_of_not_isMet hnew]
  have hle := h.length_le
  have hwalk := h.collect_answers chain t.place k (Collected.extend ⟨[], []⟩ [t] []) (by omega) rfl
  rwa [Collected.extend_extend] at hwalk

theorem Walks.params_answers {d : TypeRef} (hd : r.structOf? t = some d)
    (h : r.Walks (metWith [d] []) d.file d.fields us sites) (chain : List String) :
    AnswersOn chain (r.params (.type t))
      (.ok (.list ((r.parameters chain sites).map (Parameter.toValue d.place)))) := by
  simp only [params, hd]
  exact (h.collect_struct chain (Nat.lt_succ_self _)).bind (answersOn_pure chain _)

/-- **Each struct is gone through once**, whatever is embedded in what. The walk through the struct
that a type denotes ends, and there is no other one; it enters no key twice, and misses no struct
that embedded fields lead to; each field of these structs that takes in nothing is one of its sites,
once. The parameters are those of the sites, in the order of the walk, one for each whose name is
not left out, and more fuel than there are declarations makes no difference. -/
theorem params_walk (r : Resolver) {d : TypeRef} (hd : r.structOf? t = some d)
    (chain : List String) :
    ∃ us sites,
      r.Walks (metWith [d] []) d.file d.fields us sites ∧
      (∀ vs more, r.Walks (metWith [d] []) d.file d.fields vs more → vs = us ∧ more = sites) ∧
      (keys (d :: us)).Nodup ∧
      (r.graph.IsFound d → ∀ path u, r.EmbedsAlong d path u → u ∈ d :: us) ∧
      sites.Perm ((d :: us).flatMap fun u => r.ownSites u.file u.fields) ∧
      (∀ fuel, r.graph.types.length < fuel →
        AnswersOn chain (r.collect d.place fuel ⟨[], []⟩ d)
          ⟨metWith (d :: us) [], (r.parameters chain sites).map (Parameter.toValue d.place)⟩) ∧
      AnswersOn chain (r.params (.type t))
        (.ok (.list ((r.parameters chain sites).map (Parameter.toValue d.place)))) := by
  obtain ⟨us, sites, h⟩ := r.exists_walks (metWith [d] []) d.file d.fields
  have hunmet : Unmet [] ([d] ++ us) := unmet_append.2 ⟨unmet_singleton.2 nofun, h.unmet⟩
  exact ⟨us, sites, h, fun _ _ => h.unique, hunmet.1, fun hfound _ _ => h.mem_of_embedsAlong hfound,
    h.sites_perm, fun _ => h.collect_struct chain, h.params_answers hd chain⟩

/-! A tour takes in a pet and a keeper, which both take in a base, and the pet takes in the tour
again, by the name of a pointer. -/

namespace Touring

def idField : Field := ⟨"Id", .scalar .integer, .empty, [], false⟩

def nameField : Field := ⟨"Name", .scalar .string, .empty, [], false⟩

def dayField : Field := ⟨"Day", .scalar .string, .empty, [], false⟩

def noteField : Field := ⟨"Note", .scalar .string, .empty, [], false⟩

/-- An embedded field without a tag. -/
def takenIn (name : String) : Field := ⟨name, .named name, .empty, [], true⟩

def base : Declaration := ⟨"zoo.Base", "Base", "zoo", .empty, .struct [idField], []⟩

def pet : Declaration :=
  ⟨"zoo.Pet", "Pet", "zoo", .empty, .struct [takenIn "Base", takenIn "Handle", nameField], []⟩

def keeper : Declaration :=
  ⟨"zoo.Keeper", "Keeper", "zoo", .empty, .struct [takenIn "Base", dayField], []⟩

def tour : Declaration :=
  ⟨"zoo.Tour", "Tour", "zoo", .empty, .struct [takenIn "Pet", takenIn "Keeper", noteField], []⟩

def handle : Declaration :=
  ⟨"zoo.Handle", "Handle", "zoo", .empty, .expr (.pointer (.named "Tour")), []⟩

def graph : Graph :=
  ⟨"", ["zoo"], [("zoo", ⟨"zoo", []⟩)], [base, pet, keeper, tour, handle], []⟩

def resolver : Resolver := .new graph .default

/-- The base is gone through in the pet, and in the keeper it adds nothing more. -/
theorem params_walk_tour :
    resolver.structOf? handle.ref = some tour.ref ∧
      resolver.Walks (metWith [tour.ref] []) tour.ref.file tour.ref.fields
        [pet.ref, base.ref, keeper.ref]
        [⟨"zoo", idField⟩, ⟨"zoo", nameField⟩, ⟨"zoo", dayField⟩, ⟨"zoo", noteField⟩] ∧
      AnswersOn [] (resolver.params (.type handle.ref))
        (.ok (.list ((resolver.parameters []
          [⟨"zoo", idField⟩, ⟨"zoo", nameField⟩, ⟨"zoo", dayField⟩, ⟨"zoo", noteField⟩]).map
            (Parameter.toValue none)))) := by
  have htour : resolver.structOf? handle.ref = some tour.ref := rfl
  have hbase : resolver.Walks (metWith [base.ref] (metWith [pet.ref] (metWith [tour.ref] [])))
      "zoo" base.ref.fields [] [⟨"zoo", idField⟩] := .own rfl .nil
  have hpet : resolver.Walks (metWith [pet.ref] (metWith [tour.ref] [])) "zoo" pet.ref.fields
      [base.ref] [⟨"zoo", idField⟩, ⟨"zoo", nameField⟩] :=
    .enter (u := base.ref) rfl (by decide) hbase
      (.again (u := tour.ref) rfl (by decide) (.own rfl .nil))
  have hwalk : resolver.Walks (metWith [tour.ref] []) tour.ref.file tour.ref.fields
      [pet.ref, base.ref, keeper.ref]
      [⟨"zoo", idField⟩, ⟨"zoo", nameField⟩, ⟨"zoo", dayField⟩, ⟨"zoo", noteField⟩] :=
    .enter (u := pet.ref) rfl (by decide) hpet
      (.enter (u := keeper.ref) rfl (by decide)
        (.again (u := base.ref) rfl (by decide) (.own rfl .nil)) (.own rfl .nil))
  obtain ⟨us, sites, -, hunique, -, -, -, -, hparams⟩ := params_walk resolver htour []
  obtain ⟨rfl, rfl⟩ := hunique _ _ hwalk
  exact ⟨htour, hwalk, hparams⟩

end Touring

/-- A struct that unfolds has the parameters of the sites that it unfolds into. -/
theorem params_answers (hstruct : t.isStruct = true) (h : r.Unfolds t.file t.fields us sites)
    (hnodup : (keys (t :: us)).Nodup) (chain : List String) :
    AnswersOn chain (r.params (.type t))
      (.ok (.list ((r.parameters chain sites).map (Parameter.toValue t.place)))) := by
  have hself : r.structOf? t = some t := by
    simp [structOf?, definition?, maxHops, definitionWithin, TypeRef.shape_of_isStruct hstruct,
      hstruct]
  have hunmet : Unmet [] ([t] ++ us) := ⟨hnodup, fun _ _ => List.not_mem_nil⟩
  exact (h.walks (unmet_append.1 hunmet).2).params_answers hself chain

theorem Unfolds.append {fields' : List Field} {us' : List TypeRef} {sites' : List Site}
    (h : r.Unfolds file fields us sites) (h' : r.Unfolds file fields' us' sites') :
    r.Unfolds file (fields ++ fields') (us ++ us') (sites ++ sites') := by
  induction h with
  | nil => exact h'
  | own hf _ ih => exact .own hf (ih h')
  | embedded hf hu _ _ ih =>
      rw [List.append_assoc, List.append_assoc]
      exact .embedded hf hu (ih h')

theorem exists_of_unfolds_append {fields' : List Field} : ∀ {us : List TypeRef} {sites : List Site},
    r.Unfolds file (fields ++ fields') us sites → ∃ us₁ us₂ sites₁ sites₂, us = us₁ ++ us₂ ∧
      sites = sites₁ ++ sites₂ ∧ r.Unfolds file fields us₁ sites₁ ∧
      r.Unfolds file fields' us₂ sites₂ := by
  induction fields with
  | nil => intro us sites h; exact ⟨[], us, [], sites, rfl, rfl, .nil, h⟩
  | cons f rest ih =>
      intro us sites h
      cases h with
      | own hf h =>
          obtain ⟨us₁, us₂, sites₁, sites₂, rfl, rfl, h₁, h₂⟩ := ih h
          exact ⟨us₁, us₂, _, sites₂, rfl, rfl, .own hf h₁, h₂⟩
      | embedded hf hu h =>
          obtain ⟨us₁, us₂, sites₁, sites₂, rfl, rfl, h₁, h₂⟩ := ih h
          exact ⟨_, us₂, _, sites₂, by simp, by simp, .embedded hf hu h₁, h₂⟩

/-- What unfolds around an embedded field, and what unfolds in its place. -/
theorem Unfolds.exists_of_embedded (h : r.Unfolds file (before ++ f :: after) us sites)
    (hf : r.embedded? file f = some b) :
    ∃ us₁ inner us₂ sites₁ own sites₂, us = us₁ ++ (b :: inner ++ us₂) ∧
      sites = sites₁ ++ (own ++ sites₂) ∧ r.Unfolds file before us₁ sites₁ ∧
      r.Unfolds b.file b.fields inner own ∧ r.Unfolds file after us₂ sites₂ := by
  obtain ⟨us₁, us', sites₁, sites', rfl, rfl, hbefore, hrest⟩ := exists_of_unfolds_append h
  cases hrest with
  | own hnone _ =>
      rw [hf] at hnone
      cases hnone
  | @embedded _ _ _ u inner us₂ own sites₂ hu hinner hafter =>
      obtain rfl := Option.some.inj (hf.symm.trans hu)
      exact ⟨us₁, inner, us₂, sites₁, own, sites₂, rfl, rfl, hbefore, hinner, hafter⟩

/-- **An embedded struct contributes its own parameters.** Where no key is reached twice, the
parameters of a struct are those of the fields before the embedded one, those of the struct that
this denotes, and those of the fields behind it. The contribution has the names, descriptions,
schemas and the rest in the order that they have in the embedded struct by itself, but where a field
names no place it has that of the struct asked for. If this has none, the contribution is exactly
what the embedded struct gives by itself if that has none either, or needs none. -/
theorem params_embedding (r : Resolver) (honce : r.EmbedsOnce t)
    (hshape : t.shape = .struct (before ++ f :: after)) (hspliced : isSpliced f = true)
    (hb : r.structOf? (f.ref t.file) = some b) {v : Visits} (hv : v.Counts []) :
    let paramsOf (t : TypeRef) := ((r.params (.type t)).run v).1
    ∃ (own rest : List Value) (ps : List Parameter),
      paramsOf { t with shape := .struct before } = .ok (.list own) ∧
      paramsOf { t with shape := .struct (before ++ [f]) } =
        .ok (.list (own ++ ps.map (Parameter.toValue t.place))) ∧
      paramsOf t = .ok (.list (own ++ ps.map (Parameter.toValue t.place) ++ rest)) ∧
      paramsOf b = .ok (.list (ps.map (Parameter.toValue b.place))) ∧
      (t.place = none →
        (ps.map (Parameter.toValue t.place) = ps.map (Parameter.toValue b.place) ↔
          b.place = none ∨ ∀ p ∈ ps, p.place ≠ none)) := by
  intro paramsOf
  have hembedded : r.embedded? t.file f = some b := by rw [embedded?, if_pos hspliced, hb]
  have hstruct : t.isStruct = true := by simp [TypeRef.isStruct, hshape]
  have hfields : t.fields = before ++ f :: after := by simp [TypeRef.fields, hshape]
  obtain ⟨us, sites, h, hnodup⟩ := honce.exists_unfolds
  rw [hfields] at h
  obtain ⟨us₁, inner, us₂, sites₁, own, sites₂, rfl, rfl, hbefore, hinner, -⟩ :=
    h.exists_of_embedded hembedded
  rw [← hfields] at h
  have hthrough : r.Unfolds t.file (before ++ [f]) (us₁ ++ b :: inner) (sites₁ ++ own) := by
    simpa using hbefore.append (.embedded hembedded hinner .nil)
  -- the structs that a part is made of are some of all, so their keys are distinct too
  have hpart {ts : List TypeRef} (hts : ts.Sublist (us₁ ++ (b :: inner ++ us₂))) :
      (keys (t :: ts)).Nodup := hnodup.sublist (TypeRef.keys_sublist (hts.cons_cons t))
  have hcontributed : (b :: inner).Sublist (b :: inner ++ us₂) := List.sublist_append_left _ _
  have hleft := params_answers (t := { t with shape := .struct before }) rfl hbefore
    (hpart (List.sublist_append_left us₁ _)) [] v hv
  have htaken := params_answers (t := { t with shape := .struct (before ++ [f]) }) rfl hthrough
    (hpart (hcontributed.append_left us₁)) [] v hv
  have hall := params_answers hstruct h hnodup [] v hv
  have halone := params_answers (embedded?_eq_some_iff.1 hembedded).2.2 hinner
    (hnodup.sublist (TypeRef.keys_sublist
      ((hcontributed.trans (List.sublist_append_right us₁ _)).cons t))) [] v hv
  simp only [parameters_append, List.map_append] at htaken hall
  refine ⟨(r.parameters [] sites₁).map (Parameter.toValue t.place),
    (r.parameters [] sites₂).map (Parameter.toValue t.place), r.parameters [] own, hleft.1,
    htaken.1, ?_, halone.1, fun hnone => ?_⟩
  · rw [List.append_assoc]
    exact hall.1
  · rw [hnone, List.map_inj_left]
    simp only [Parameter.toValue_none_eq_iff]
    by_cases hplace : b.place = none <;> simp [hplace]

/-! A search takes in a window, which is the name of a pointer to a page. The documentation of the
page places its fields in the query; one of them names its own place. -/

namespace Searching

def inPlace (place : String) : Doc := ⟨"", "", "", [("in", .string place)]⟩

def page : Declaration :=
  ⟨"zoo.Page", "Page", "zoo", inPlace "query", .struct [
    ⟨"Size", .scalar .integer, ⟨"Items.", "Items.", "", [("required", .bool true)]⟩, [], false⟩,
    ⟨"Token", .scalar .string, inPlace "header", [], false⟩], []⟩

def window : Declaration :=
  ⟨"zoo.Window", "Window", "zoo", .empty, .expr (.pointer (.named "Page")), []⟩

def windowField : Field := ⟨"Window", .named "Window", .empty, [], true⟩

def textField : Field := ⟨"Text", .scalar .string, .empty, [], false⟩

def search : Declaration :=
  ⟨"zoo.Search", "Search", "zoo", .empty, .struct [windowField, textField], []⟩

def graph : Graph :=
  ⟨"", ["zoo"], [("zoo", ⟨"zoo", []⟩)], [page, window, search], []⟩

def resolver : Resolver := .new graph .default

def paramsOf (t : TypeRef) : Except EvalError Value := ((resolver.params (.type t)).run []).1

theorem search_embedsOnce : resolver.EmbedsOnce search.ref :=
  have hways : ([], search.ref) :: [([], search.ref), ([0], page.ref)].flatMap resolver.waysOn =
      [([], search.ref), ([0], page.ref)] := rfl
  embedsOnce_of_ways hways (by decide)

/-- The parameters of the page, of which one names no place. -/
def pageParameters : List Parameter :=
  [⟨"Size", none, "Items.", some (.bool true),
      .scalar { ScalarSchema.plain .integer with description := some "Items." }⟩,
    ⟨"Token", some (.string "header"), "", none, .scalar (.plain .string)⟩]

def textParameter : Parameter := ⟨"Text", none, "", none, .scalar (.plain .string)⟩

/-- Behind a name and a pointer the search contributes the parameters of the page. -/
theorem params_embedding_page : resolver.EmbedsOnce search.ref ∧
    search.ref.shape = .struct ([] ++ windowField :: [textField]) ∧
    isSpliced windowField = true ∧
    resolver.structOf? (windowField.ref search.ref.file) = some page.ref ∧
    Visits.Counts [] [] ∧
    ∃ (own rest : List Value) (ps : List Parameter),
      paramsOf search.ref =
        .ok (.list (own ++ ps.map (Parameter.toValue search.ref.place) ++ rest)) ∧
      paramsOf page.ref = .ok (.list (ps.map (Parameter.toValue page.ref.place))) := by
  have hshape : search.ref.shape = .struct ([] ++ windowField :: [textField]) := rfl
  have hpage : resolver.structOf? (windowField.ref search.ref.file) = some page.ref := rfl
  obtain ⟨own, rest, ps, -, -, hall, hpage, -⟩ :=
    params_embedding resolver search_embedsOnce hshape rfl hpage Visits.Counts.nil
  exact ⟨search_embedsOnce, rfl, rfl, rfl, Visits.Counts.nil, own, rest, ps, hall, hpage⟩

/-- The search names no place, and the place that the page names is lost in it. -/
theorem params_loses_place :
    resolver.EmbedsOnce search.ref ∧ search.ref.place = none ∧ isSpliced windowField = true ∧
      resolver.structOf? (windowField.ref search.ref.file) = some page.ref ∧
      paramsOf search.ref = .ok (.list
        (pageParameters.map (Parameter.toValue none) ++ [textParameter.toValue none])) ∧
      paramsOf page.ref =
        .ok (.list (pageParameters.map (Parameter.toValue (some (.string "query"))))) ∧
      pageParameters.map (Parameter.toValue none) ≠
        pageParameters.map (Parameter.toValue (some (.string "query"))) := by
  refine ⟨search_embedsOnce, rfl, rfl, rfl, rfl, rfl, fun heq => ?_⟩
  have hsize := (List.cons.inj heq).1
  rw [Parameter.toValue_none_eq_iff] at hsize
  simp at hsize

end Searching

end Resolver

end SchemaWeave
