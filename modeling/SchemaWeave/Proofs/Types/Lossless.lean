import SchemaWeave.Proofs.Types.Loading
import Mathlib.Data.List.Forall2
import Mathlib.Data.List.Nodup

/-!
Loading loses nothing. A loaded graph has one declaration for each entry of a type, which is found
under its key and holds what the entry says (`TypeEntry.Makes`), its fields and constants in order.
If the files of a manifest fit together (`FilesFit`), each is found with its package and its imports
(`Files.lookup_listed`), so that the names in a type mean what its package and its imports say.
-/

namespace SchemaWeave

open TypePath (join)

namespace Manifest

/-! ### What an entry says -/

/-- A field holds what its entry says. -/
structure FieldEntry.Makes (e : FieldEntry) (f : Field) : Prop where
  name : e.name.or (TypeExpr.bareName? e.type) = some f.name
  type : TypeExpr.parse e.type = .ok f.type
  doc : Doc.parse e.doc = .ok f.doc
  tag : f.tag = Tag.parse e.tag
  embedded : f.embedded = (e.embedded || e.name.isNone)

/-- A shape is made of the fields of an entry in their order, or else is the type that it names. -/
def TypeEntry.MakesShape (t : TypeEntry) (shape : Shape) : Prop :=
  match t.fields, t.type with
  | some entries, _ =>
    ∃ fields, shape = .struct fields ∧ List.Forall₂ FieldEntry.Makes entries fields
  | none, some text => ∃ type, shape = .expr type ∧ TypeExpr.parse text = .ok type
  | none, none => shape = .struct []

/-- A type holds what its entry in a package says. -/
structure TypeEntry.Makes (package : String) (t : TypeEntry) (ref : TypeRef) : Prop where
  key : ref.key = some (join package t.name)
  name : ref.name = some t.name
  file : ref.file = t.file.getD package
  doc : Doc.parse t.doc = .ok ref.doc
  shape : t.MakesShape ref.shape

variable {package key : String} {g g' : Graph} {d : Declaration}

theorem FieldEntry.makes_of_load {e : FieldEntry} {f : Field} (h : e.load key = .ok f) :
    e.Makes f := by
  obtain ⟨type, htype, h⟩ := bind_eq_ok.1 h
  have hnamed {name : String} (hname : e.name.or (TypeExpr.bareName? e.type) = some name)
      (h : (do
        let doc ← loadDoc e.doc (join key (e.name.getD e.type))
        .ok ⟨name, type, doc, Tag.parse e.tag, e.embedded || e.name.isNone⟩) =
          (.ok f : Except ManifestError Field)) : e.Makes f := by
    obtain ⟨doc, hdoc, h⟩ := bind_eq_ok.1 h
    cases h
    exact ⟨hname, mapError_eq_ok.1 htype, mapError_eq_ok.1 hdoc, rfl, rfl⟩
  -- the name is given, or that of the type, or missing
  dsimp only at h
  split at h
  · rename_i name hname
    exact hnamed (by rw [hname]; rfl) h
  · rename_i name hname hbare
    exact hnamed (by rw [hname, hbare]; rfl) h
  · cases h

theorem fields_of_load {entries : List FieldEntry} : ∀ {fields : List Field},
    entries.mapM (FieldEntry.load key) = .ok fields →
      List.Forall₂ FieldEntry.Makes entries fields := by
  induction entries with
  | nil =>
      intro fields h
      cases h
      exact .nil
  | cons e entries ih =>
      intro fields h
      rw [List.mapM_cons] at h
      obtain ⟨f, hf, h⟩ := bind_eq_ok.1 h
      obtain ⟨others, hothers, h⟩ := bind_eq_ok.1 h
      cases h
      exact .cons (FieldEntry.makes_of_load hf) (ih hothers)

theorem TypeEntry.makesShape_of_load {t : TypeEntry} {shape : Shape}
    (h : t.loadShape key = .ok shape) : t.MakesShape shape := by
  unfold TypeEntry.loadShape at h
  split at h
  · rename_i entries hfields
    obtain ⟨fields, hentries, h⟩ := bind_eq_ok.1 h
    cases h
    rw [TypeEntry.MakesShape, hfields]
    exact ⟨fields, rfl, fields_of_load hentries⟩
  · rename_i text hfields htext
    obtain ⟨type, htype, h⟩ := bind_eq_ok.1 h
    cases h
    rw [TypeEntry.MakesShape, hfields, htext]
    exact ⟨type, rfl, mapError_eq_ok.1 htype⟩
  · rename_i hfields htext
    cases h
    rw [TypeEntry.MakesShape, hfields, htext]

theorem TypeEntry.makes_of_declaration {t : TypeEntry} (h : t.declaration package = .ok d) :
    t.Makes package d.ref ∧ d.constants = t.constants.map fun c => ⟨c.name, c.value⟩ := by
  obtain ⟨shape, hshape, h⟩ := bind_eq_ok.1 h
  obtain ⟨doc, hdoc, h⟩ := bind_eq_ok.1 h
  cases h
  exact ⟨⟨rfl, rfl, rfl, mapError_eq_ok.1 hdoc, TypeEntry.makesShape_of_load hshape⟩, rfl⟩

/-! ### Files -/

/-- The listed files of packages. -/
def listedFiles (ps : List PackageEntry) : List (String × SourceFile) :=
  ps.flatMap fun p => p.files.map fun f => (f.path, ⟨p.key, f.imports⟩)

/-- What the path of a package stands for as a file: a file without imports. -/
def PackageEntry.ownFile (p : PackageEntry) : String × SourceFile := (p.key, ⟨p.key, []⟩)

/-- The files of a graph are the listed ones, and the paths of packages. -/
structure Files (ps : List PackageEntry) (files : List (String × SourceFile)) : Prop where
  listed : ∀ entry ∈ listedFiles ps, entry ∈ files
  own : ∀ p ∈ ps, ∃ file, (p.key, file) ∈ files
  sound : ∀ entry ∈ files, entry ∈ listedFiles ps ∨ ∃ p ∈ ps, entry = p.ownFile

theorem mem_listedFiles {ps : List PackageEntry} {entry : String × SourceFile} :
    entry ∈ listedFiles ps ↔ ∃ p ∈ ps, ∃ f ∈ p.files, entry = (f.path, ⟨p.key, f.imports⟩) := by
  simp [listedFiles, eq_comm]

theorem mem_of_lookup {files : List (String × SourceFile)} {path : String} {file : SourceFile}
    (h : files.lookup path = some file) : (path, file) ∈ files := by
  obtain ⟨before, after, rfl, -⟩ := List.lookup_eq_some_iff.1 h
  simp

/-- A path under which there is one file leads to it. -/
theorem lookup_of_unique {files : List (String × SourceFile)} {path : String} {file : SourceFile}
    (hmem : (path, file) ∈ files) (hunique : ∀ other, (path, other) ∈ files → other = file) :
    files.lookup path = some file := by
  cases h : files.lookup path with
  | none =>
      rw [List.lookup_eq_none_iff] at h
      simpa using h _ hmem
  | some other => rw [hunique other (mem_of_lookup h)]

theorem files_addFiles (p : PackageEntry) (g : Graph) :
    ∀ entry, entry ∈ (addFiles p.key p.files g).files ↔
      entry ∈ listedFiles [p] ∨ ((g.files.lookup p.key).isNone ∧ entry = p.ownFile) ∨
        entry ∈ g.files := by
  intro entry
  simp only [addFiles, listedFiles, PackageEntry.ownFile, List.flatMap_cons, List.flatMap_nil,
    List.append_nil, List.mem_append, List.mem_reverse]
  cases g.files.lookup p.key <;> simp [or_assoc]

variable {ps : List PackageEntry} {p : PackageEntry}

theorem files_of_load (h : p.load g = .ok g') :
    g'.files = (addFiles p.key p.files g).files := by
  obtain ⟨middle, hmiddle, h⟩ := bind_eq_ok.1 h
  obtain ⟨ts, -, rfl, -⟩ := loadTypes_eq_ok _ hmiddle
  obtain ⟨ms, -, rfl⟩ := loadMethods_eq_ok _ h
  rfl

theorem Files.load (hg : Files ps g.files) (h : p.load g = .ok g') :
    Files (ps ++ [p]) g'.files := by
  have hlisted : listedFiles (ps ++ [p]) = listedFiles ps ++ listedFiles [p] := by
    simp [listedFiles]
  have hmem := files_addFiles p g
  rw [← files_of_load h] at hmem
  refine ⟨fun entry hentry => ?_, fun q hq => ?_, fun entry hentry => ?_⟩
  · rw [hlisted] at hentry
    rw [hmem]
    rcases List.mem_append.1 hentry with hentry | hentry
    · exact .inr (.inr (hg.listed entry hentry))
    · exact .inl hentry
  · rcases List.mem_append.1 hq with hq | hq
    · obtain ⟨file, hfile⟩ := hg.own q hq
      exact ⟨file, (hmem _).2 (.inr (.inr hfile))⟩
    · -- the path of the package was there before, or is entered now
      rw [List.mem_singleton.1 hq]
      cases hown : g.files.lookup p.key with
      | none => exact ⟨_, (hmem _).2 (.inr (.inl ⟨by rw [hown]; rfl, rfl⟩))⟩
      | some file => exact ⟨file, (hmem _).2 (.inr (.inr (mem_of_lookup hown)))⟩
  · rw [hlisted, List.mem_append]
    rcases (hmem entry).1 hentry with hentry | ⟨-, hentry⟩ | hentry
    · exact .inl (.inr hentry)
    · exact .inr ⟨p, by simp, hentry⟩
    · rcases hg.sound entry hentry with hentry | ⟨q, hq, hentry⟩
      · exact .inl (.inl hentry)
      · exact .inr ⟨q, by simp [hq], hentry⟩

theorem load_files {m : Manifest} (h : m.load = .ok g) : Files m.packages g.files :=
  load_induction (fun ps g => Files ps g.files) (fun hg hp => hg.load hp) ⟨nofun, nofun, nofun⟩ h

/-- No file is listed twice, or under the path of a package; and the files of types are listed with
their package. -/
structure FilesFit (m : Manifest) : Prop where
  distinct : (m.packages.flatMap fun p => p.files.map FileEntry.path).Nodup
  noPackage : ∀ p ∈ m.packages, ∀ f ∈ p.files, ∀ q ∈ m.packages, f.path ≠ q.key
  listed : ∀ p ∈ m.packages, ∀ t ∈ p.types, ∀ path ∈ t.file,
    ∃ q ∈ m.packages, q.key = p.key ∧ ∃ f ∈ q.files, f.path = path

variable {m : Manifest}

/-- A listed file is found with its package and its imports. -/
theorem FilesFit.lookup_listed (hfit : m.FilesFit) (hg : Files m.packages g.files)
    (hp : p ∈ m.packages) {f : FileEntry} (hf : f ∈ p.files) :
    g.files.lookup f.path = some ⟨p.key, f.imports⟩ := by
  have hentry : (f.path, (⟨p.key, f.imports⟩ : SourceFile)) ∈ listedFiles m.packages :=
    mem_listedFiles.2 ⟨p, hp, f, hf, rfl⟩
  have hpaths : ((listedFiles m.packages).map Prod.fst).Nodup := by
    simpa [listedFiles, List.map_flatMap, Function.comp_def] using hfit.distinct
  refine lookup_of_unique (hg.listed _ hentry) fun other hother => ?_
  -- another file of the same path would be listed twice, or be that of a package
  rcases hg.sound _ hother with hother | ⟨q, hq, hother⟩
  · exact (Prod.ext_iff.1 (List.inj_on_of_nodup_map hpaths hother hentry rfl)).2
  · exact absurd (congrArg Prod.fst hother) (hfit.noPackage p hp f hf q hq)

/-- The path of a package is a file of it without imports. -/
theorem FilesFit.lookup_own (hfit : m.FilesFit) (hg : Files m.packages g.files)
    (hp : p ∈ m.packages) : g.files.lookup p.key = some ⟨p.key, []⟩ := by
  have hsame {file : SourceFile} (hfile : (p.key, file) ∈ g.files) : file = ⟨p.key, []⟩ := by
    rcases hg.sound _ hfile with hlisted | ⟨q, hq, heq⟩
    · obtain ⟨q, hq, f, hf, heq⟩ := mem_listedFiles.1 hlisted
      exact absurd (congrArg Prod.fst heq).symm (hfit.noPackage q hq f hf p hp)
    · obtain ⟨hkey, rfl⟩ := Prod.ext_iff.1 heq
      exact congrArg (SourceFile.mk · []) hkey.symm
  obtain ⟨file, hfile⟩ := hg.own p hp
  exact lookup_of_unique (hsame hfile ▸ hfile) fun _ => hsame

/-- The file of a type belongs to the package of the type. -/
theorem FilesFit.packageOf? (hfit : m.FilesFit) (hg : Files m.packages g.files)
    (hp : p ∈ m.packages) {t : TypeEntry} (ht : t ∈ p.types) :
    g.packageOf? (t.file.getD p.key) = some p.key := by
  cases hfile : t.file with
  | none => rw [Option.getD_none, Graph.packageOf?, hfit.lookup_own hg hp, Option.map_some]
  | some path =>
      obtain ⟨q, hq, hkey, f, hf, rfl⟩ := hfit.listed p hp t ht path hfile
      rw [Option.getD_some, Graph.packageOf?, hfit.lookup_listed hg hq hf, Option.map_some, hkey]

/-! ### A loaded graph -/

theorem length_typeEntries (ps : List PackageEntry) :
    (typeEntries ps).length = (ps.flatMap PackageEntry.types).length := by
  simp [typeEntries, List.length_flatMap]

/-- The keys of the declarations are those of the entries. -/
theorem Describes.keys {root : String} (hg : Describes root ps g) :
    g.types.map (·.key) = (typeEntries ps).map fun e => join e.1 e.2.name := by
  have htypes := hg.types_eq
  generalize typeEntries ps = entries, g.types = ds at htypes
  induction entries generalizing ds with
  | nil =>
      cases ds with
      | nil => rfl
      | cons => cases htypes
  | cons e entries ih =>
      cases ds with
      | nil => cases htypes
      | cons d ds =>
          obtain ⟨hd, hrest⟩ := List.cons.inj htypes
          rw [List.map_cons, List.map_cons, TypeEntry.key_of_declaration hd, ih ds hrest]

/-- **Loading loses nothing.** A manifest is loaded only if no two of its types have one key. The
graph then holds as many types as there are entries, and each is found in its package, with its
documentation, its fields and its constants, in order. If moreover the files fit together, the names
in a type mean the types of its own package, and the names behind an import of its file those of the
package that is imported. -/
theorem load_lossless (h : m.load = .ok g) :
    ((typeEntries m.packages).map fun e => join e.1 e.2.name).Nodup ∧
    g.types.length = (m.packages.flatMap PackageEntry.types).length ∧
    ∀ p ∈ m.packages, ∀ t ∈ p.types, ∃ ref, g.lookup p.key t.name = some ref ∧
      t.Makes p.key ref ∧
      g.constants ref = t.constants.map (fun c => ⟨c.name, c.value⟩) ∧
      (m.FilesFit →
        (∀ name, g.resolveInFile ref.file none name = g.lookup p.key name) ∧
        ∀ q ∈ m.packages, ∀ f ∈ q.files, t.file = some f.path →
          ∀ short target, Dictionary.get? short f.imports = some target →
            ∀ name, g.resolveInFile ref.file (some short) name = g.lookup target name) := by
  have hdescribes := load_describes h
  have hfiles := load_files h
  have hkeys := hdescribes.keys
  refine ⟨hkeys ▸ hdescribes.distinct, ?_, fun p hp t ht => ?_⟩
  · rw [← length_typeEntries, ← List.length_map, hkeys, List.length_map]
  · obtain ⟨d, hd, hfound⟩ := hdescribes.declared hp ht
    obtain ⟨hmakes, hlisted⟩ := TypeEntry.makes_of_declaration hd
    refine ⟨d.ref, ?_, hmakes, ?_, fun hfit => ⟨fun name => ?_, ?_⟩⟩
    · rw [Graph.lookup, ← TypeEntry.key_of_declaration hd, hfound, Option.map_some]
    · simpa only [Graph.constants, Declaration.ref, Option.bind_some, hfound] using hlisted
    · -- the file of the type belongs to its package, in which a bare name is looked up
      rw [hmakes.file, Graph.resolveInFile]
      simp only [hfit.packageOf? hfiles hp ht]
      rfl
    · intro q hq f hf hfile short target hshort name
      have himports : g.imports f.path = f.imports := by
        rw [Graph.imports, hfit.lookup_listed hfiles hq hf, Option.map_some, Option.getD_some]
      rw [hmakes.file, hfile, Option.getD_some, Graph.resolveInFile]
      simp only [himports, hshort]
      rfl

/-- A package in two entries, with a file that imports another package. -/
theorem load_lossless_pets :
    let toy : TypeEntry := ⟨"Toy", some "model.go", "", some "Owner", none, []⟩
    let pet : TypeEntry := ⟨"Pet", none, "A pet.", some "string", none, [⟨"cat", .string "cat"⟩]⟩
    let owner : TypeEntry :=
      ⟨"Owner", some "model.go", "", none, some [⟨some "Pet", "pets.Pet", "", "", false⟩], []⟩
    let model : PackageEntry :=
      ⟨"app/model", [⟨"model.go", [("pets", "app/pets")]⟩], [owner], []⟩
    let more : PackageEntry := ⟨"app/model/", [], [toy], []⟩
    let m : Manifest := ⟨"app", [model, ⟨"app/pets", [], [pet], []⟩, more]⟩
    ∃ g, m.load = .ok g ∧ m.FilesFit ∧ g.types.length = 3 ∧
      ∃ ref, g.lookup "app/model" "Toy" = some ref ∧ toy.Makes "app/model" ref ∧
        g.resolveInFile ref.file none "Owner" = g.lookup "app/model" "Owner" ∧
        g.resolveInFile ref.file (some "pets") "Pet" = g.lookup "app/pets" "Pet" := by
  intro toy pet owner model more m
  have hkey : more.key = "app/model" := by decide +kernel
  have hfit : m.FilesFit :=
    { distinct := by decide +kernel
      noPackage := by decide +kernel
      listed := by decide +kernel }
  have hsome : m.load.toOption.isSome = true := by decide +kernel
  cases h : m.load with
  | error e => simp [h, Except.toOption] at hsome
  | ok g =>
      obtain ⟨-, hlength, htypes⟩ := load_lossless h
      obtain ⟨ref, hlookup, hmakes, -, hnames⟩ :=
        htypes more (by simp [m]) toy List.mem_cons_self
      obtain ⟨hown, himports⟩ := hnames hfit
      rw [hkey] at hlookup hmakes hown
      exact ⟨g, rfl, hfit, hlength, ref, hlookup, hmakes, hown "Owner",
        himports model List.mem_cons_self _ List.mem_cons_self rfl "pets" "app/pets" rfl "Pet"⟩

end Manifest

end SchemaWeave
