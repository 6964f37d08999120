import SchemaWeave.Yaml.Raw

/-!
A reader of a document follows aliases to the nodes they mean, where it looks at them. Collections
may nest 128 deep, counted through aliases, and aliases may be followed a hundred times as often as
the document has marks. What lies beyond matters only to a reader who looks at it; so a node that
contains itself does no harm where it is ignored.
-/

namespace SchemaWeave.Yaml

namespace Raw

mutual

/-- How many marks a node makes: one for a scalar or alias, two for a collection besides those of
its parts. -/
def marks : Raw → Nat
  | .scalar .. => 1
  | .aliasOf _ => 1
  | .sequence _ items => 2 + marksItems items
  | .mapping _ entries => 2 + marksEntries entries

def marksItems : List Raw → Nat
  | [] => 0
  | item :: rest => marks item + marksItems rest

def marksEntries : List (Raw × Raw) → Nat
  | [] => 0
  | (key, value) :: rest => marks key + marks value + marksEntries rest

end

mutual

/-- The nodes that carry an anchor, in order of their beginnings. -/
def anchored : Raw → List (Nat × Raw)
  | .aliasOf _ => []
  | .scalar anchor tag style text =>
    anchor.toList.map fun n => (n, .scalar anchor tag style text)
  | .sequence anchor items =>
    (anchor.toList.map fun n => (n, .sequence anchor items)) ++ anchoredItems items
  | .mapping anchor entries =>
    (anchor.toList.map fun n => (n, .mapping anchor entries)) ++ anchoredEntries entries

def anchoredItems : List Raw → List (Nat × Raw)
  | [] => []
  | item :: rest => anchored item ++ anchoredItems rest

def anchoredEntries : List (Raw × Raw) → List (Nat × Raw)
  | [] => []
  | (key, value) :: rest => anchored key ++ anchored value ++ anchoredEntries rest

end

end Raw

/-- What aliases mean, and how often they may be followed. -/
structure Targets where
  nodes : List (Nat × Raw)
  limit : Nat

/-- The targets of a document's aliases; of several nodes with one number the last counts. -/
def Raw.targets (r : Raw) : Targets := ⟨r.anchored.reverse, 100 * r.marks⟩

/-- Looking at a document. The state counts how many aliases were followed. -/
abbrev Looking := ReaderT Targets (StateT Nat (Except Fault))

/-- A part of a document, and how many collections may be open inside one another from here on. -/
structure Tree where
  raw : Raw
  depth : Nat

/-- What a part of a document is seen to be. Nothing at all is seen of an empty document. -/
inductive Shape where
  | void
  | scalar (tag : Option String) (style : Style) (text : String)
  | sequence (items : List Tree)
  | mapping (entries : List (Tree × Tree))

namespace Tree

/-- How deep collections may nest. -/
def maxDepth : Nat := 128

/-- The node that stands here, or that the alias here means. -/
def target (t : Tree) : Looking Raw :=
  match t.raw with
  | .aliasOf n => do
    let targets ← read
    modify (· + 1)
    if targets.limit < (← get) then throw .tooManyAliases
    match targets.nodes.find? (·.1 == n) with
    | some (_, node) => return node
    | none => throw .unknownAnchor
  | node => return node

/-- Looks at a part of a document. -/
def look (t : Tree) : Looking Shape := do
  match ← t.target, t.depth with
  | .aliasOf _, _ => throw .unknownAnchor
  | .scalar _ tag style text, _ => return .scalar tag style text
  | .sequence .., 0 => throw .tooDeep
  | .mapping .., 0 => throw .tooDeep
  | .sequence _ items, depth + 1 => return .sequence (items.map fun item => ⟨item, depth⟩)
  | .mapping _ entries, depth + 1 =>
    return .mapping (entries.map fun (key, value) => (⟨key, depth⟩, ⟨value, depth⟩))

end Tree

/-- A reader of documents of one form. -/
abbrev Decoder (α : Type) := Shape → Looking α

/-- Reads a part of a document. -/
def Tree.decode {α : Type} (read : Decoder α) (t : Tree) : Looking α := do read (← t.look)

/-- Reads the document that a text holds. -/
def Decoder.ofText {α : Type} (read : Decoder α) (text : String) : Except Fault α := do
  match ← Raw.ofTokens? (← Token.scan text) with
  | none => ((read .void).run ⟨[], 0⟩).run' 0
  | some raw => ((Tree.decode read ⟨raw, Tree.maxDepth⟩).run raw.targets).run' 0

end SchemaWeave.Yaml
