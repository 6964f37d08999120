import SchemaWeave.Proofs.Types.Loading
import SchemaWeave.Proofs.Types.Path

/-!
What a key means, given back to the graph as a path. A path is looked up under its absolute form,
among the methods if its member has a point and else among the types (`resolvePath_eq`). So the key
of a type leads to it exactly if its package is plain (`IsPlain`), and the key of a method if its
package has an absolute path. A type of a package like `lib/yaml.v2` is out of reach: its key
is taken apart at the point of `yaml.v2`, and then read as that of a method.
-/

namespace SchemaWeave

open TypePath (join split IsDotted)

namespace Graph

variable {g : Graph} {d : Declaration} {owner name package path : String}

/-! ### Absolute paths -/

theorem normalize_of_relative {rest : List Char} (h : path.toList = '.' :: '/' :: rest) :
    g.normalize path = if g.root.isEmpty then path else g.root ++ "/" ++ String.ofList rest := by
  simp only [normalize, h]

theorem normalize_of_not_relative (h : ∀ rest, path.toList ≠ '.' :: '/' :: rest) :
    g.normalize path = path := by
  unfold normalize
  split
  · rename_i hpath
    exact absurd hpath (h _)
  · rfl

theorem normalize_join (g : Graph) (owner : String) (hname : '/' ∉ name.toList) :
    g.normalize (join owner name) = join (g.normalize owner) name := by
  have hkey := TypePath.toList_join owner name
  by_cases hrelative : ∃ rest, owner.toList = '.' :: '/' :: rest
  · obtain ⟨rest, hrest⟩ := hrelative
    rw [hrest] at hkey
    rw [normalize_of_relative hkey, normalize_of_relative hrest]
    split
    · rfl
    · rw [← String.toList_inj]
      simp [TypePath.toList_join]
  · have howner : ∀ rest, owner.toList ≠ '.' :: '/' :: rest := fun rest h => hrelative ⟨rest, h⟩
    rw [normalize_of_not_relative howner, normalize_of_not_relative]
    intro rest h
    rw [hkey] at h
    -- the slash would have to stand in the name, or be the point, or make the owner relative
    cases hchars : owner.toList with
    | nil =>
        rw [hchars, List.nil_append, List.cons.injEq] at h
        rw [h.2] at hname
        exact hname List.mem_cons_self
    | cons c cs =>
        cases cs with
        | nil => simp [hchars] at h
        | cons c' cs =>
            simp only [hchars, List.cons_append, List.cons.injEq] at h
            exact howner cs (by rw [hchars, h.1, h.2.1])

/-! ### Looking up a path -/

theorem key_of_find? {ds : List Declaration} {key : String} (h : ds.find? (·.key == key) = some d) :
    d.key = key := by
  simpa using List.find?_some h

/-- A path with a member is itself the key that is looked up. -/
theorem resolvePath_eq (h : (split (g.normalize path)).2 ≠ "") :
    g.resolvePath path =
      (if '.' ∈ (split (g.normalize path)).2.toList then g.methodAt? (g.normalize path)
        else g.type? (g.normalize path)).map Declaration.ref := by
  by_cases hdot : '.' ∈ (split (g.normalize path)).2.toList
  · simp [resolvePath, h, hdot, TypePath.join_split h]
  · simp [resolvePath, h, hdot, lookup, TypePath.join_split h]

theorem key_of_resolvePath {t : TypeRef} (h : g.resolvePath path = some t) :
    t.key = some (g.normalize path) := by
  have hmember : (split (g.normalize path)).2 ≠ "" := by
    intro hempty
    simp [resolvePath, hempty] at h
  rw [resolvePath_eq hmember] at h
  obtain ⟨d, hd, rfl⟩ := Option.map_eq_some_iff.1 h
  split at hd
  · exact congrArg some (key_of_find? hd)
  · exact congrArg some (key_of_find? hd)

/-- A path through which a declaration with that key is found is absolute. -/
theorem normalize_of_resolvePath (hname : '/' ∉ name.toList) (hkey : d.key = join package name)
    (h : g.resolvePath d.key = some d.ref) : g.normalize package = package := by
  have hnormal : d.key = g.normalize d.key := Option.some.inj (key_of_resolvePath h)
  rw [hkey, normalize_join g package hname, TypePath.join_left_inj] at hnormal
  exact hnormal.symm

/-! ### Keys as paths -/

/-- The keys of a package lead to its types: it has a name, an absolute path, and no point in its
last segment. -/
structure IsPlain (g : Graph) (package : String) : Prop where
  nonempty : package ≠ ""
  absolute : g.normalize package = package
  undotted : ¬ IsDotted package

/-- The key of a type leads to it, and names its package. -/
structure Reaches (g : Graph) (package : String) (d : Declaration) : Prop where
  owned : g.ownsPath d.key = true
  found : g.resolvePath d.key = some d.ref
  package_eq : d.ref.package? = some package

theorem IsPlain.split_normalize (h : g.IsPlain package) (hname : '/' ∉ name.toList) :
    split (g.normalize (join package name)) = (package, name) := by
  rw [normalize_join g package hname, h.absolute, TypePath.split_join h.undotted hname]

theorem IsPlain.ownsPath (h : g.IsPlain package) (hpackage : package ∈ g.packages)
    (hname : '/' ∉ name.toList) (hne : name ≠ "") : g.ownsPath (join package name) = true := by
  simp [Graph.ownsPath, h.split_normalize hname, hasPackage, hpackage, h.nonempty, hne]

theorem IsPlain.resolvePath (h : g.IsPlain package) (hname : Text.isIdentifier name.toList = true) :
    g.resolvePath (join package name) = g.lookup package name := by
  have hslash := Text.slash_not_mem_of_isIdentifier hname
  have hsplit := h.split_normalize hslash
  have hne := Text.ne_empty_of_isIdentifier hname
  rw [resolvePath_eq (by rw [hsplit]; exact hne), hsplit,
    if_neg (Text.dot_not_mem_of_isIdentifier hname), normalize_join g package hslash, h.absolute]
  rfl

/-- A declared type is reached by its key exactly if its package is plain. -/
theorem reaches_iff (hname : Text.isIdentifier name.toList = true)
    (hpackage : package ∈ g.packages) (hkey : d.key = join package name)
    (hd : g.lookup package name = some d.ref) : g.Reaches package d ↔ g.IsPlain package := by
  have hslash := Text.slash_not_mem_of_isIdentifier hname
  have hne := Text.ne_empty_of_isIdentifier hname
  constructor
  · intro h
    have habsolute := normalize_of_resolvePath hslash hkey h.found
    have hsplit : (split (join package name)).1 = package := by
      rw [← hkey]
      exact Option.some.inj h.package_eq
    refine ⟨?_, habsolute, (TypePath.split_join_fst_iff package hslash).1 hsplit⟩
    rintro rfl
    have howned := h.owned
    simp [Graph.ownsPath, hkey, normalize_join g "" hslash, habsolute, hsplit] at howned
  · intro h
    have hsplit := TypePath.split_join h.undotted hslash
    constructor
    · rw [hkey]
      exact h.ownsPath hpackage hslash hne
    · rw [hkey, h.resolvePath hname, hd]
    · show some (split d.key).1 = some package
      rw [hkey, hsplit]

end Graph

/-! ### Methods -/

namespace Manifest

/-- The receiver and the name of a method are identifiers. -/
def MethodEntry.NamesIdentifiers (e : MethodEntry) : Prop :=
  Text.isIdentifier e.receiver.toList = true ∧ Text.isIdentifier e.name.toList = true

variable {e : MethodEntry} {package : String} {g : Graph} {d : Declaration}

/-- The member that a method is of its package. -/
def MethodEntry.member (e : MethodEntry) : String := join e.receiver e.name

theorem MethodEntry.key_eq (package : String) (e : MethodEntry) :
    e.key package = join package e.member := TypePath.join_assoc ..

theorem MethodEntry.NamesIdentifiers.slash_not_mem (h : e.NamesIdentifiers) :
    '/' ∉ e.member.toList :=
  TypePath.slash_not_mem_join (Text.slash_not_mem_of_isIdentifier h.1)
    (Text.slash_not_mem_of_isIdentifier h.2)

/-- The key of a method leads to it exactly if its package has an absolute path. -/
theorem MethodEntry.NamesIdentifiers.resolvePath_key_iff (h : e.NamesIdentifiers)
    (hd : g.methodAt? (e.key package) = some d) :
    g.resolvePath (e.key package) = some d.ref ↔ g.normalize package = package := by
  have hslash := h.slash_not_mem
  have hkey := Graph.key_of_find? hd
  constructor
  · intro hfound
    rw [← hkey] at hfound
    exact Graph.normalize_of_resolvePath hslash (hkey.trans (MethodEntry.key_eq ..)) hfound
  · intro habsolute
    have hnormal : g.normalize (e.key package) = e.key package := by
      rw [MethodEntry.key_eq, Graph.normalize_join g package hslash, habsolute]
    -- wherever the key is taken apart, the member keeps the point before the name
    have hdot : '.' ∈ (split (g.normalize (e.key package))).2.toList := by
      rw [hnormal, MethodEntry.key_eq]
      exact (TypePath.suffix_split_join package hslash).mem (TypePath.dot_mem_join ..)
    have hne : (split (g.normalize (e.key package))).2 ≠ "" := by
      intro hempty
      simp [hempty] at hdot
    rw [Graph.resolvePath_eq hne, if_pos hdot, hnormal, hd]
    rfl

theorem MethodEntry.NamesIdentifiers.ownsPath_key (h : e.NamesIdentifiers)
    (hpackage : package ∈ g.packages) (hplain : g.IsPlain package) :
    g.ownsPath (e.key package) = true := by
  rw [MethodEntry.key_eq]
  exact hplain.ownsPath hpackage h.slash_not_mem (TypePath.join_ne_empty e.receiver e.name)

/-- The names of types, receivers and methods are identifiers. -/
def NamesIdentifiers (m : Manifest) : Prop :=
  ∀ p ∈ m.packages, (∀ t ∈ p.types, Text.isIdentifier t.name.toList = true) ∧
    ∀ e ∈ p.methods, e.NamesIdentifiers

end Manifest

/-- **Keys as paths.** In the graph of a manifest whose names are identifiers, every declared type
is found by package and name; its key as a path leads to it exactly if its package is plain. The
key of a method leads to the last method declared under it exactly if the path of its package is
absolute, and belongs to the graph if the package is plain. -/
theorem Manifest.load_reaches {m : Manifest} {g : Graph} (h : m.load = .ok g)
    (hm : m.NamesIdentifiers) {p : PackageEntry} (hp : p ∈ m.packages) :
    (∀ t ∈ p.types, ∃ d, t.declaration p.key = .ok d ∧ g.lookup p.key t.name = some d.ref ∧
      (g.Reaches p.key d ↔ g.IsPlain p.key)) ∧
    ∀ e ∈ p.methods, ∃ last d, m.lastMethod? (e.key p.key) = some last ∧
      last.2.declaration last.1 = .ok d ∧
      (g.resolvePath (e.key p.key) = some d.ref ↔ g.normalize p.key = p.key) ∧
      (g.IsPlain p.key → g.ownsPath (e.key p.key) = true) := by
  have hg := load_describes h
  obtain ⟨htypes, hmethods⟩ := hm p hp
  refine ⟨fun t ht => ?_, fun e he => ?_⟩
  · obtain ⟨d, hd, hlookup⟩ := hg.lookup hp ht
    exact ⟨d, hd, hlookup, Graph.reaches_iff (htypes t ht) (hg.hasPackage hp)
      (TypeEntry.key_of_declaration hd) hlookup⟩
  · have hnames := hmethods e he
    obtain ⟨last, d, hlast, hdeclared, hd⟩ := hg.lastMethod hp he
    exact ⟨last, d, hlast, hdeclared, hnames.resolvePath_key_iff hd,
      hnames.ownsPath_key (hg.hasPackage hp)⟩

/-! Two packages that declare the same names; the last segment of one has a point. -/

namespace Twins

def package (path : String) : Manifest.PackageEntry :=
  ⟨path, [], [⟨"Node", none, "", none, none, []⟩], [⟨"Node", "Decode", none, ""⟩]⟩

def manifest : Manifest := ⟨"", [package "app/yaml", package "lib/yaml.v2/"]⟩

def node (package : String) : Declaration :=
  ⟨join package "Node", "Node", package, .empty, .struct [], []⟩

def decode (package : String) : Declaration :=
  ⟨join (join package "Node") "Decode", "Decode", package, .empty, .expr .func, []⟩

def graph : Graph where
  root := ""
  packages := ["app/yaml", "lib/yaml.v2"]
  files := [("lib/yaml.v2", ⟨"lib/yaml.v2", []⟩), ("app/yaml", ⟨"app/yaml", []⟩)]
  types := [node "app/yaml", node "lib/yaml.v2"]
  methods := [decode "lib/yaml.v2", decode "app/yaml"]

theorem load_manifest : manifest.load = .ok graph := rfl

theorem manifest_namesIdentifiers : manifest.NamesIdentifiers := by
  have hidentifiers : Text.isIdentifier "Node".toList = true ∧
      Text.isIdentifier "Decode".toList = true := by
    decide +kernel
  simpa [Manifest.NamesIdentifiers, Manifest.MethodEntry.NamesIdentifiers, manifest, package]
    using hidentifiers

theorem graph_isPlain : graph.IsPlain "app/yaml" :=
  ⟨by decide, by decide +kernel, by decide +kernel⟩

/-- The twin without a point is reached, and its method belongs to the graph. -/
theorem load_reaches_undotted : ∃ d, d.key = "app/yaml.Node" ∧ graph.Reaches "app/yaml" d ∧
    graph.ownsPath "app/yaml.Node.Decode" = true := by
  have hkey : (package "app/yaml").key = "app/yaml" := by decide +kernel
  obtain ⟨htypes, hmethods⟩ := Manifest.load_reaches load_manifest manifest_namesIdentifiers
    (List.mem_cons_self : package "app/yaml" ∈ manifest.packages)
  rw [hkey] at htypes hmethods
  obtain ⟨d, hd, -, hreaches⟩ := htypes _ List.mem_cons_self
  obtain ⟨-, -, -, -, -, howned⟩ := hmethods _ List.mem_cons_self
  exact ⟨d, Manifest.TypeEntry.key_of_declaration hd, hreaches.2 graph_isPlain,
    howned graph_isPlain⟩

/-- The twin with a point is declared, but its key means nothing. -/
theorem dotted_out_of_reach : manifest.load = .ok graph ∧ manifest.NamesIdentifiers ∧
    graph.lookup "lib/yaml.v2" "Node" = some (node "lib/yaml.v2").ref ∧
    graph.ownsPath "lib/yaml.v2.Node" = false ∧
    (graph.resolvePath "lib/yaml.v2.Node").isNone = true ∧
    (node "lib/yaml.v2").ref.package? = some "lib/yaml" :=
  ⟨load_manifest, manifest_namesIdentifiers, rfl, by decide +kernel, by decide +kernel,
    by decide +kernel⟩

end Twins

end SchemaWeave
