import Mathlib.Algebra.Ring.Nat
import SchemaWeave.Proofs.Completion.Lowering

/-!
The two ways to put a value into a document. `Value.toNode?` takes data and schemas only and looks
at nothing else; `Setting.lower` takes every value, asks the resolver for the schemas of the rest,
and counts those with hard errors. What both do to maps and lists is the same, so they differ in the
leaves of a value alone (`Value.leaves`), and there only in those that need a resolver.

`Tallies` is the contract of an action that only counts: what it answers and how much it counts is
determined by the counters that it starts from, and it leaves counters like these behind.
-/

namespace SchemaWeave

namespace Value

theorem induction {motive : Value → Prop}
    (map : ∀ entries : List (String × Value), (∀ entry ∈ entries, motive entry.2) →
      motive (.map entries))
    (list : ∀ items : List Value, (∀ item ∈ items, motive item) → motive (.list items))
    (null : motive .null) (bool : ∀ b, motive (.bool b)) (number : ∀ n, motive (.number n))
    (string : ∀ text, motive (.string text)) (type : ∀ t, motive (.type t))
    (package : ∀ name path, motive (.package name path)) (schema : ∀ s, motive (.schema s))
    (function : ∀ f, motive (.function f)) (missing : ∀ m, motive (.missing m)) (v : Value) :
    motive v :=
  @Value.rec
    motive
    (fun entries => ∀ entry ∈ entries, motive entry.2)
    (fun items => ∀ item ∈ items, motive item)
    (fun entry => motive entry.2)
    null bool number string map list type package schema function missing
    nofun
    (fun _ _ hfirst hrest => List.forall_mem_cons.2 ⟨hfirst, hrest⟩)
    nofun
    (fun _ _ hfirst hrest => List.forall_mem_cons.2 ⟨hfirst, hrest⟩)
    (fun _ _ hvalue => hvalue)
    v

mutual

/-- The parts of a value that are neither maps nor lists, in order. -/
def leaves : Value → List Value
  | .map entries => leavesOfEntries entries
  | .list items => leavesOfItems items
  | .null => [.null]
  | .bool b => [.bool b]
  | .number n => [.number n]
  | .string text => [.string text]
  | .type t => [.type t]
  | .package name path => [.package name path]
  | .schema s => [.schema s]
  | .function f => [.function f]
  | .missing m => [.missing m]

def leavesOfItems : List Value → List Value
  | [] => []
  | item :: rest => leaves item ++ leavesOfItems rest

def leavesOfEntries : List (String × Value) → List Value
  | [] => []
  | (_, value) :: rest => leaves value ++ leavesOfEntries rest

end

theorem leaves_list (items : List Value) : leaves (.list items) = items.flatMap leaves := by
  rw [leaves]
  induction items with
  | nil => rfl
  | cons item rest ih => rw [leavesOfItems, ih, List.flatMap_cons]

theorem leaves_map (entries : List (String × Value)) :
    leaves (.map entries) = entries.flatMap fun entry => leaves entry.2 := by
  rw [leaves]
  induction entries with
  | nil => rfl
  | cons entry rest ih => rw [leavesOfEntries, ih, List.flatMap_cons]

/-- Types, packages, functions and names that were not found: only a resolver knows their form in a
document. -/
def needsResolver : Value → Bool
  | .type _ | .package .. | .function _ | .missing _ => true
  | _ => false

/-- What is a schema in a document. -/
def isSchema : Value → Bool
  | .schema _ => true
  | v => v.needsResolver

/-- Nothing in the value needs a resolver. -/
def Resolved (v : Value) : Prop := ∀ leaf ∈ v.leaves, leaf.needsResolver = false

theorem resolved_list {items : List Value} :
    Resolved (.list items) ↔ ∀ item ∈ items, item.Resolved := by
  simp only [Resolved, leaves_list, List.mem_flatMap]
  exact ⟨fun h item hitem leaf hleaf => h leaf ⟨item, hitem, hleaf⟩,
    fun h leaf ⟨item, hitem, hleaf⟩ => h item hitem leaf hleaf⟩

theorem resolved_map {entries : List (String × Value)} :
    Resolved (.map entries) ↔ ∀ entry ∈ entries, entry.2.Resolved := by
  simp only [Resolved, leaves_map, List.mem_flatMap]
  exact ⟨fun h entry hentry leaf hleaf => h leaf ⟨entry, hentry, hleaf⟩,
    fun h leaf ⟨entry, hentry, hleaf⟩ => h entry hentry leaf hleaf⟩

end Value

/-- A partial function that on the good elements of a list is `g`, and undefined on the others, is
defined on the whole list if all of them are good. -/
theorem mapM_eq_some_iff {α β : Type} {f : α → Option β} {good : α → Prop} {g : α → β}
    {xs : List α} (h : ∀ x ∈ xs, ∀ y, f x = some y ↔ good x ∧ g x = y) :
    ∀ ys, xs.mapM f = some ys ↔ (∀ x ∈ xs, good x) ∧ xs.map g = ys := by
  induction xs with
  | nil => intro ys; simp
  | cons x rest ih =>
      obtain ⟨hx, hrest⟩ := List.forall_mem_cons.1 h
      intro ys
      simp only [List.mapM_cons, Option.bind_eq_bind, Option.bind_eq_some_iff, Option.pure_def,
        Option.some.injEq, hx, ih hrest, List.forall_mem_cons, List.map_cons]
      constructor
      · rintro ⟨y, ⟨hgood, rfl⟩, ys, ⟨hall, rfl⟩, rfl⟩
        exact ⟨⟨hgood, hall⟩, rfl⟩
      · rintro ⟨⟨hgood, hall⟩, rfl⟩
        exact ⟨_, ⟨hgood, rfl⟩, _, ⟨hall, rfl⟩, rfl⟩

namespace Value

theorem toNodes?_eq_mapM (items : List Value) : toNodes? items = items.mapM toNode? := by
  induction items with
  | nil => rfl
  | cons item rest ih => rw [toNodes?, ih, List.mapM_cons]; rfl

theorem toEntries?_eq_mapM (entries : List (String × Value)) :
    toEntries? entries = entries.mapM fun entry => entry.2.toNode?.map (Prod.mk entry.1) := by
  induction entries with
  | nil => rfl
  | cons entry rest ih =>
      rw [toEntries?, ih, List.mapM_cons]
      cases entry.2.toNode? <;> rfl

/-- How data and schemas are put into a document: maps and lists part by part, and leaves in their
one form. -/
structure IsForm (form : Value → Node) : Prop where
  map : ∀ entries, form (.map entries) = .map (entries.map fun entry => (entry.1, form entry.2))
  list : ∀ items, form (.list items) = .list (items.map form)
  null : form .null = .null
  bool : ∀ b, form (.bool b) = .bool b
  number : ∀ n, form (.number n) = .number n
  string : ∀ text, form (.string text) = .string text
  schema : ∀ s, form (.schema s) = s.toNode

/-- A value in which nothing needs a resolver has one form, and no other value has any. -/
theorem toNode?_eq_some_iff {form : Value → Node} (hform : IsForm form) (v : Value) : ∀ n,
    v.toNode? = some n ↔ v.Resolved ∧ form v = n := by
  induction v using Value.induction with
  | map entries ih =>
      have hentries : ∀ entry ∈ entries, ∀ e, entry.2.toNode?.map (Prod.mk entry.1) = some e ↔
          entry.2.Resolved ∧ (entry.1, form entry.2) = e := by
        intro entry hentry e
        simp [Option.map_eq_some_iff, ih entry hentry, and_assoc]
      intro n
      rw [toNode?, toEntries?_eq_mapM, Option.map_eq_some_iff, resolved_map, hform.map]
      simp [mapM_eq_some_iff hentries, and_assoc]
  | list items ih =>
      intro n
      rw [toNode?, toNodes?_eq_mapM, Option.map_eq_some_iff, resolved_list, hform.list]
      simp [mapM_eq_some_iff ih, and_assoc]
  | null => intro n; simp [toNode?, Resolved, leaves, needsResolver, hform.null]
  | bool b => intro n; simp [toNode?, Resolved, leaves, needsResolver, hform.bool]
  | number x => intro n; simp [toNode?, Resolved, leaves, needsResolver, hform.number]
  | string text => intro n; simp [toNode?, Resolved, leaves, needsResolver, hform.string]
  | schema s => intro n; simp [toNode?, Resolved, leaves, needsResolver, hform.schema]
  | type | package | function | missing =>
      intro n
      simp [toNode?, Resolved, leaves, needsResolver]

end Value

/-! ### Counting -/

variable {α β : Type} {chain : List String}

/-- On counters of the chain the action answers `x`, counts `n` schemas with hard errors and records
nothing else. -/
def Tallies (chain : List String) (a : Pass α) (x : α) (n : Nat) : Prop :=
  ∀ p, Visits.Counts p.visits chain →
    ∃ v, Visits.Counts v chain ∧ a.run p = (x, p.add v (.hardErrors n))

theorem tallies_pure (chain : List String) (x : α) : Tallies chain (pure x) x 0 :=
  fun p hp => ⟨p.visits, hp, congrArg (Prod.mk x) (p.add_empty p.visits).symm⟩

section Tallies

variable {a : Pass α} {x : α} {n : Nat}

theorem Tallies.bind {b : α → Pass β} {y : β} {k : Nat} (ha : Tallies chain a x n)
    (hb : Tallies chain (b x) y k) : Tallies chain (a >>= b) y (n + k) := by
  intro p hp
  obtain ⟨v, hv, ha⟩ := ha p hp
  obtain ⟨v', hv', hb⟩ := hb (p.add v (.hardErrors n)) hv
  refine ⟨v', hv', ?_⟩
  have hrun : (a >>= b).run p = (b (a.run p).1).run (a.run p).2 := rfl
  rw [hrun, ha, hb, Progress.add_add, Record.hardErrors_append]

theorem Tallies.map (ha : Tallies chain a x n) (f : α → β) :
    Tallies chain (a >>= fun y => pure (f y)) (f x) n := by
  have hmap : Tallies chain (a >>= fun y => pure (f y)) (f x) (n + 0) :=
    ha.bind (tallies_pure chain (f x))
  exact hmap

/-- What is done for every element of a list is counted together. -/
theorem Tallies.mapM {b : α → Pass β} {f : α → β} {count : α → Nat} {xs : List α}
    (h : ∀ x ∈ xs, Tallies chain (b x) (f x) (count x)) :
    Tallies chain (xs.mapM b) (xs.map f) (xs.map count).sum := by
  induction xs with
  | nil => exact tallies_pure chain []
  | cons x rest ih =>
      obtain ⟨hx, hrest⟩ := List.forall_mem_cons.1 h
      rw [List.mapM_cons, List.map_cons, List.map_cons, List.sum_cons]
      exact hx.bind ((ih hrest).map _)

theorem Tallies.answer (ha : Tallies chain a x n) {p : Progress}
    (hp : Visits.Counts p.visits chain) : (a.run p).1 = x := by
  obtain ⟨v, -, hrun⟩ := ha p hp
  rw [hrun]

end Tallies

namespace Setting

variable {s : Setting} {p : Progress}

theorem tallies_resolve {a : Resolving α} {x : α} (h : AnswersOn chain a x) :
    Tallies chain (resolve a) x 0 := by
  intro p hp
  obtain ⟨hx, hv⟩ := h p.visits hp
  refine ⟨(a.run p.visits).2, hv, ?_⟩
  rw [← hx]
  exact congrArg (Prod.mk _) (p.add_empty _).symm

theorem tallies_render (chain : List String) (schema : Schema) :
    Tallies chain (render schema) schema.toNode ([schema].countP Schema.containsHardError) := by
  refine fun p hp => ⟨p.visits, hp, ?_⟩
  cases hhard : schema.containsHardError <;>
    simp [render, hhard, Progress.add, Record.hardErrors] <;> rfl

theorem lowerItems_eq_mapM (s : Setting) (items : List Value) :
    s.lowerItems items = items.mapM s.lower := by
  induction items with
  | nil => rfl
  | cons item rest ih => rw [lowerItems, ih, List.mapM_cons]

theorem lowerEntries_eq_mapM (s : Setting) (entries : List (String × Value)) :
    s.lowerEntries entries = entries.mapM fun entry => do return (entry.1, ← s.lower entry.2) := by
  induction entries with
  | nil => rfl
  | cons entry rest ih => rw [lowerEntries, ih, List.mapM_cons, bind_assoc]; rfl

/-- The form that a value takes in the document of a pass. -/
def formIn (s : Setting) (p : Progress) (v : Value) : Node := ((s.lower v).run p).1

/-- The schema that a leaf stands for in a pass. -/
def schemaIn (s : Setting) (p : Progress) (leaf : Value) : Schema :=
  ((s.resolver.valueSchema false leaf).run p.visits).1

/-- How many schemas with hard errors a value puts into the document of a pass. -/
def hardErrorsIn (s : Setting) (p : Progress) (v : Value) : Nat :=
  ((v.leaves.filter Value.isSchema).map (s.schemaIn p)).countP Schema.containsHardError

theorem hardErrorsIn_list (s : Setting) (p : Progress) (items : List Value) :
    s.hardErrorsIn p (.list items) = (items.map (s.hardErrorsIn p)).sum := by
  rw [hardErrorsIn, Value.leaves_list]
  induction items with
  | nil => rfl
  | cons item rest ih =>
      rw [List.flatMap_cons, List.filter_append, List.map_append, List.countP_append, ih]
      rfl

theorem hardErrorsIn_map (s : Setting) (p : Progress) (entries : List (String × Value)) :
    s.hardErrorsIn p (.map entries) =
      (entries.map fun entry => s.hardErrorsIn p entry.2).sum := by
  rw [hardErrorsIn, Value.leaves_map]
  induction entries with
  | nil => rfl
  | cons entry rest ih =>
      rw [List.flatMap_cons, List.filter_append, List.map_append, List.countP_append, ih]
      rfl

/-- What only a resolver knows becomes the schema that it resolves to. -/
theorem tallies_schemaIn (hp : p.visits.Counts chain) (leaf : Value) :
    Tallies chain (do render (← resolve (s.resolver.valueSchema false leaf)))
      (s.schemaIn p leaf).toNode ([s.schemaIn p leaf].countP Schema.containsHardError) := by
  have hanswers := (s.resolver.valueSchema_steady false leaf).answersOn hp
  have hall := (tallies_resolve hanswers).bind (tallies_render chain (s.schemaIn p leaf))
  rwa [Nat.zero_add] at hall

/-- A map is put into the document entry by entry. -/
theorem tallies_map {entries : List (String × Value)}
    (h : ∀ entry ∈ entries,
      Tallies chain (s.lower entry.2) (s.formIn p entry.2) (s.hardErrorsIn p entry.2)) :
    Tallies chain (s.lower (.map entries))
      (.map (entries.map fun entry => (entry.1, s.formIn p entry.2)))
      (s.hardErrorsIn p (.map entries)) := by
  rw [lower, lowerEntries_eq_mapM, hardErrorsIn_map]
  exact (Tallies.mapM fun entry hentry => (h entry hentry).map (Prod.mk entry.1)).map _

/-- A list is put into the document item by item. -/
theorem tallies_list {items : List Value}
    (h : ∀ item ∈ items, Tallies chain (s.lower item) (s.formIn p item) (s.hardErrorsIn p item)) :
    Tallies chain (s.lower (.list items)) (.list (items.map (s.formIn p)))
      (s.hardErrorsIn p (.list items)) := by
  rw [lower, lowerItems_eq_mapM, hardErrorsIn_list]
  exact (Tallies.mapM h).map _

/-- Putting a value into the document counts its schemas with hard errors, and does nothing else. -/
theorem lower_tallies (hp : p.visits.Counts chain) (v : Value) :
    Tallies chain (s.lower v) (s.formIn p v) (s.hardErrorsIn p v) := by
  have hform {v : Value} {node : Node} (h : Tallies chain (s.lower v) node (s.hardErrorsIn p v)) :
      Tallies chain (s.lower v) (s.formIn p v) (s.hardErrorsIn p v) := by
    rwa [formIn, h.answer hp]
  induction v using Value.induction with
  | map entries ih => exact hform (tallies_map ih)
  | list items ih => exact hform (tallies_list ih)
  | schema schema => exact hform (tallies_render chain schema)
  | type | package | function | missing => exact hform (tallies_schemaIn hp _)
  | null | bool | number | string => exact tallies_pure chain _

/-- The forms of values in a pass are put together from those of their leaves. -/
theorem formIn_isForm (hp : p.visits.Counts chain) : Value.IsForm (s.formIn p) where
  map _ := (tallies_map fun entry _ => lower_tallies hp entry.2).answer hp
  list _ := (tallies_list fun item _ => lower_tallies hp item).answer hp
  null := rfl
  bool _ := rfl
  number _ := rfl
  string _ := rfl
  schema schema := (tallies_render chain schema).answer hp

theorem formIn_of_isSchema (hp : p.visits.Counts chain) {leaf : Value}
    (h : leaf.isSchema = true) : s.formIn p leaf = (s.schemaIn p leaf).toNode := by
  cases leaf with
  | schema schema => exact (formIn_isForm hp).schema schema
  | type | package | function | missing => exact (tallies_schemaIn hp _).answer hp
  | null | bool | number | string | map | list => cases h

/-- **Two ways into a document**: wherever a value has a form without a resolver, and this is where
no leaf needs one, a pass puts it into the document in this form. A pass puts every value into it,
maps entry by entry and lists item by item, in order, and the leaves that are schemas there as the
schemas that they are resolved to. Of these it counts those with hard errors, and it records nothing
else. -/
theorem lower_extends (s : Setting) (p : Progress) :
    (∀ v n, v.toNode? = some n ↔
        (∀ leaf ∈ v.leaves, leaf.needsResolver = false) ∧ s.formIn p v = n) ∧
      (∀ entries, s.formIn p (.map entries) =
        .map (entries.map fun entry => (entry.1, s.formIn p entry.2))) ∧
      (∀ items, s.formIn p (.list items) = .list (items.map (s.formIn p))) ∧
      (∀ leaf, leaf.isSchema = true → s.formIn p leaf = (s.schemaIn p leaf).toNode) ∧
      ∀ v, ∃ visits : Visits, (∀ key, visits.count key = p.visits.count key) ∧
        (s.lower v).run p = (s.formIn p v,
          { p with visits := visits, inlineErrors := p.inlineErrors + s.hardErrorsIn p v }) := by
  obtain ⟨chain, hp⟩ := Visits.exists_counts p.visits
  have hform : Value.IsForm (s.formIn p) := formIn_isForm hp
  refine ⟨Value.toNode?_eq_some_iff hform, hform.map, hform.list,
    fun leaf hleaf => formIn_of_isSchema hp hleaf, fun v => ?_⟩
  obtain ⟨visits, hvisits, hrun⟩ := lower_tallies hp v p hp
  refine ⟨visits, fun key => (hvisits key).trans (hp key).symm, ?_⟩
  rw [hrun]
  simp [Progress.add, Record.hardErrors]

/-- A pet of an unknown type of name, a schema with an error, a function and a name that was not
found, between data. -/
theorem lower_extends_mixed :
    let pet : Declaration := ⟨"zoo.Pet", "Pet", "zoo", .empty,
      .struct [⟨"Name", .named "Missing", .empty, [], false⟩], []⟩
    let g : Graph := ⟨"", ["zoo"], [("zoo", ⟨"zoo", []⟩)], [pet], []⟩
    let s : Setting := ⟨.new g .default, [], .identity⟩
    let resolved : Value := .list [.null, .schema (.hardError "bad")]
    let mixed : Value := .map [("pets", .list [.type pet.ref, .string "a"]), ("bad", resolved),
      ("f", .function .params), ("bad", .missing ⟨"who", "document"⟩)]
    (∃ n, resolved.toNode? = some n ∧ s.formIn .start resolved = n) ∧ mixed.toNode? = none ∧
      (∃ pets bad f who, s.formIn .start mixed =
        .map [("pets", .list [pets, .string "a"]), ("bad", .list [.null, bad]), ("f", f),
          ("bad", who)]) ∧
      ((s.lower mixed).run .start).2.inlineErrors = 4 := by
  intro pet g s resolved mixed
  obtain ⟨hform, hmap, hlist, -, hrun⟩ := lower_extends s .start
  obtain ⟨visits, -, hmixed⟩ := hrun mixed
  refine ⟨⟨_, rfl, ((hform resolved _).1 rfl).2⟩, rfl, ?_, ?_⟩
  · rw [hmap]
    simp only [List.map_cons, List.map_nil, hlist, resolved]
    exact ⟨_, _, _, _, rfl⟩
  · rw [hmixed]
    rfl

end Setting

end SchemaWeave
