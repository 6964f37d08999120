import SchemaWeave.Document.Node

/-!
The parts of a document: the node itself and every node in it, at any depth of its maps and lists.
A property of a document that speaks of all depths is one of its parts (`Node.Throughout`), and is
taken down one level at a time by `Node.throughout_map` and `Node.throughout_list`. Proofs about
documents go by `Node.induction`, in which the values of a map and the items of a list are met as
members.
-/

namespace SchemaWeave

namespace Node

/-- What holds of a map or list if it holds of everything in it, and of every scalar, holds of
every document. -/
theorem induction {motive : Node → Prop}
    (map : ∀ es : Entries, (∀ entry ∈ es, motive entry.2) → motive (.map es))
    (list : ∀ items : List Node, (∀ item ∈ items, motive item) → motive (.list items))
    (null : motive .null) (bool : ∀ b, motive (.bool b)) (number : ∀ x, motive (.number x))
    (string : ∀ text, motive (.string text)) (n : Node) : motive n :=
  @Node.rec
    motive
    (fun items => ∀ item ∈ items, motive item)
    (fun es => ∀ entry ∈ es, motive entry.2)
    (fun entry => motive entry.2)
    null bool number string list map
    nofun
    (fun _ _ hfirst hrest => List.forall_mem_cons.2 ⟨hfirst, hrest⟩)
    nofun
    (fun _ _ hfirst hrest => List.forall_mem_cons.2 ⟨hfirst, hrest⟩)
    (fun _ _ hvalue => hvalue)
    n

mutual

/-- A node and every node in it. -/
def parts : Node → List Node
  | .map es => .map es :: partsOfEntries es
  | .list items => .list items :: partsOfItems items
  | .null => [.null]
  | .bool b => [.bool b]
  | .number x => [.number x]
  | .string text => [.string text]

def partsOfItems : List Node → List Node
  | [] => []
  | item :: rest => parts item ++ partsOfItems rest

def partsOfEntries : List (String × Node) → List Node
  | [] => []
  | (_, value) :: rest => parts value ++ partsOfEntries rest

end

theorem partsOfItems_eq (items : List Node) : partsOfItems items = items.flatMap parts := by
  induction items with
  | nil => rfl
  | cons item rest ih => rw [partsOfItems, ih, List.flatMap_cons]

theorem partsOfEntries_eq (es : List (String × Node)) :
    partsOfEntries es = es.flatMap fun entry => entry.2.parts := by
  induction es with
  | nil => rfl
  | cons entry rest ih => rw [partsOfEntries, ih, List.flatMap_cons]

/-- Every part of the document has the property. -/
def Throughout (P : Node → Prop) (n : Node) : Prop := ∀ part ∈ n.parts, P part

instance (P : Node → Prop) [DecidablePred P] (n : Node) : Decidable (n.Throughout P) :=
  inferInstanceAs (Decidable (∀ part ∈ n.parts, P part))

variable {P : Node → Prop}

theorem Throughout.self {n : Node} (h : n.Throughout P) : P n := by
  refine h n ?_
  cases n <;> exact List.mem_cons_self

theorem throughout_map {es : Entries} :
    (map es).Throughout P ↔ P (map es) ∧ ∀ entry ∈ es, entry.2.Throughout P := by
  simp only [Throughout, parts, List.forall_mem_cons, partsOfEntries_eq, List.forall_mem_flatMap]

theorem throughout_list {items : List Node} :
    (list items).Throughout P ↔ P (list items) ∧ ∀ item ∈ items, item.Throughout P := by
  simp only [Throughout, parts, List.forall_mem_cons, partsOfItems_eq, List.forall_mem_flatMap]

/-- The keys of a map; other nodes have none. -/
def keys : Node → List String
  | .map es => Entries.keys es
  | .list _ | .null | .bool _ | .number _ | .string _ => []

mutual

/-- How deep maps and lists nest. -/
def nesting : Node → Nat
  | .map es => nestingOfEntries es + 1
  | .list items => nestingOfItems items + 1
  | .null => 0
  | .bool _ => 0
  | .number _ => 0
  | .string _ => 0

def nestingOfItems : List Node → Nat
  | [] => 0
  | item :: rest => max (nesting item) (nestingOfItems rest)

def nestingOfEntries : List (String × Node) → Nat
  | [] => 0
  | (_, value) :: rest => max (nesting value) (nestingOfEntries rest)

end

theorem nestingOfItems_le {items : List Node} {depth : Nat} :
    nestingOfItems items ≤ depth ↔ ∀ item ∈ items, item.nesting ≤ depth := by
  induction items with
  | nil => simp [nestingOfItems]
  | cons item rest ih => rw [nestingOfItems, Nat.max_le, ih, List.forall_mem_cons]

theorem nestingOfEntries_le {es : List (String × Node)} {depth : Nat} :
    nestingOfEntries es ≤ depth ↔ ∀ entry ∈ es, entry.2.nesting ≤ depth := by
  induction es with
  | nil => simp [nestingOfEntries]
  | cons entry rest ih => rw [nestingOfEntries, Nat.max_le, ih, List.forall_mem_cons]

end Node

end SchemaWeave
