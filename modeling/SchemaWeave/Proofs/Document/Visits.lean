import Mathlib.Data.List.Forall2
import SchemaWeave.Document.Path
import SchemaWeave.Proofs.Document.Canonical

/-!
Map entries and the trails to them. A trail leads through a document by the positions of entries and
items, so it tells entries with one key apart (`Node.EntryAt`), and trails are ordered as their
entries are in the text. A walk visits the entries of all trails in this order; a selection picks
the visits whose trail turns into no list and whose address fits the pattern
(`Entries.visits_select_agree`). Where no map holds a key twice, an address leads to one entry.
-/

namespace SchemaWeave

/-! ### Trails -/

/-- A turn on the way down a document: to the entry of a map or the item of a list at an index. -/
inductive Turn where
  | entry (index : Nat)
  | item (index : Nat)
  deriving DecidableEq, Repr

namespace Turn

def index : Turn → Nat
  | .entry i => i
  | .item i => i

def isEntry : Turn → Bool
  | .entry _ => true
  | .item _ => false

end Turn

/-- The turns from the root of a document to a map entry. -/
abbrev Trail := List Turn

namespace Trail

/-- Document order: an entry precedes those below it, and of two entries whose trails part that one
whose trail takes the earlier turn. -/
def Precedes (p q : Trail) : Prop := List.Lex (fun s t => s.index < t.index) p q

/-- The trail turns into no list. -/
def IsThroughMaps (p : Trail) : Prop := p.all Turn.isEntry = true

instance (p : Trail) : Decidable p.IsThroughMaps := inferInstanceAs (Decidable (_ = true))

theorem Precedes.ne {p q : Trail} (h : p.Precedes q) : p ≠ q := by
  rintro rfl
  exact List.lex_irrefl (fun s => Nat.lt_irrefl s.index) p h

end Trail

namespace Visit

/-- The breadcrumb and the key. -/
def address (v : Visit) : List String := v.breadcrumb ++ [v.key]

/-- The visit as it is below another crumb. -/
def under (crumb : String) (v : Visit) : Visit := { v with breadcrumb := crumb :: v.breadcrumb }

/-- The address is as long as the pattern and matches it position by position; a star matches any
key. -/
def Fits (pattern : List String) (v : Visit) : Prop :=
  List.Forall₂ (fun p key => p = "*" ∨ p = key) pattern v.address

instance (pattern : List String) (v : Visit) : Decidable (v.Fits pattern) :=
  inferInstanceAs (Decidable (List.Forall₂ _ _ _))

@[simp] theorem address_under (crumb : String) (v : Visit) :
    (v.under crumb).address = crumb :: v.address := rfl

@[simp] theorem value_under (crumb : String) (v : Visit) : (v.under crumb).value = v.value := rfl

theorem address_ne_nil (v : Visit) : v.address ≠ [] := by simp [address]

end Visit

namespace Node

/-- The map entry at the end of a trail, as a visit finds it. -/
inductive EntryAt : Node → Trail → Visit → Prop
  | here {es : Entries} {i : Nat} {key : String} {value : Node} (h : es[i]? = some (key, value)) :
      EntryAt (.map es) [.entry i] ⟨[], key, value⟩
  | inEntry {es : Entries} {i : Nat} {key : String} {value : Node} {trail : Trail} {visit : Visit}
      (h : es[i]? = some (key, value)) (below : EntryAt value trail visit) :
      EntryAt (.map es) (.entry i :: trail) (visit.under key)
  | inItem {items : List Node} {i : Nat} {item : Node} {trail : Trail} {visit : Visit}
      (h : items[i]? = some item) (below : EntryAt item trail visit) :
      EntryAt (.list items) (.item i :: trail) (visit.under (Nat.repr i))

/-- A listing of the map entries of a document: each with its trail, once, in document order. -/
structure IsListing (n : Node) (listing : List (Trail × Visit)) : Prop where
  mem_iff : ∀ trail visit, (trail, visit) ∈ listing ↔ n.EntryAt trail visit
  inOrder : (listing.map Prod.fst).Pairwise Trail.Precedes

/-- The list index that a text is the decimal spelling of. -/
def index? (text : String) : Option Nat :=
  let i := Nat.ofDigitChars 10 text.toList 0
  if Nat.repr i = text then some i else none

/-- Follows an address: keys are looked up in maps, and decimal indices lead into lists. -/
def follow? : List String → Node → Option Node
  | [], n => some n
  | key :: rest, .map es => (Entries.get? key es).bind (follow? rest)
  | crumb :: rest, .list items => ((index? crumb).bind (items[·]?)).bind (follow? rest)
  | _ :: _, _ => none

variable {n : Node} {trail : Trail} {visit : Visit}

theorem EntryAt.trail_ne_nil (h : n.EntryAt trail visit) : trail ≠ [] := by
  cases h <;> exact List.cons_ne_nil _ _

/-! ### The listing -/

/-- An entry of the listing as it is one turn further down. -/
def lower (turn : Turn) (crumb : String) (e : Trail × Visit) : Trail × Visit :=
  (turn :: e.1, e.2.under crumb)

mutual

/-- The map entries of a document with their trails. -/
def listing : Node → List (Trail × Visit)
  | .map es => listingEntries 0 es
  | .list items => listingItems 0 items
  | .null => []
  | .bool _ => []
  | .number _ => []
  | .string _ => []

def listingEntries (index : Nat) : List (String × Node) → List (Trail × Visit)
  | [] => []
  | (key, value) :: rest =>
    ([.entry index], ⟨[], key, value⟩) :: (listing value).map (lower (.entry index) key) ++
      listingEntries (index + 1) rest

def listingItems (index : Nat) : List Node → List (Trail × Visit)
  | [] => []
  | item :: rest =>
    (listing item).map (lower (.item index) (Nat.repr index)) ++ listingItems (index + 1) rest

end

theorem listingEntries_eq (es : List (String × Node)) : ∀ index, listingEntries index es =
    (es.zipIdx index).flatMap fun (entry, i) =>
      ([.entry i], ⟨[], entry.1, entry.2⟩) :: entry.2.listing.map (lower (.entry i) entry.1) := by
  induction es with
  | nil => intro index; rfl
  | cons entry rest ih =>
      intro index
      rw [listingEntries, ih, List.zipIdx_cons, List.flatMap_cons]

theorem listingItems_eq (items : List Node) : ∀ index, listingItems index items =
    (items.zipIdx index).flatMap fun (item, i) =>
      item.listing.map (lower (.item i) (Nat.repr i)) := by
  induction items with
  | nil => intro index; rfl
  | cons item rest ih =>
      intro index
      rw [listingItems, ih, List.zipIdx_cons, List.flatMap_cons]

theorem mem_listing_map {es : Entries} {e : Trail × Visit} :
    e ∈ (map es).listing ↔ ∃ i key value, es[i]? = some (key, value) ∧
      (e = ([.entry i], ⟨[], key, value⟩) ∨
        ∃ b ∈ value.listing, e = lower (.entry i) key b) := by
  rw [listing, listingEntries_eq, List.mem_flatMap]
  constructor
  · rintro ⟨⟨⟨key, value⟩, i⟩, hentry, hmem⟩
    refine ⟨i, key, value, List.mem_zipIdx_iff_getElem?.1 hentry, ?_⟩
    exact (List.mem_cons.1 hmem).imp_right fun h => by
      obtain ⟨b, hb, heq⟩ := List.mem_map.1 h
      exact ⟨b, hb, heq.symm⟩
  · rintro ⟨i, key, value, hi, h⟩
    refine ⟨((key, value), i), List.mem_zipIdx_iff_getElem?.2 hi, List.mem_cons.2 ?_⟩
    exact h.imp_right fun ⟨b, hb, heq⟩ => List.mem_map.2 ⟨b, hb, heq.symm⟩

theorem mem_listing_list {items : List Node} {e : Trail × Visit} :
    e ∈ (list items).listing ↔ ∃ i item, items[i]? = some item ∧
      ∃ b ∈ item.listing, e = lower (.item i) (Nat.repr i) b := by
  rw [listing, listingItems_eq, List.mem_flatMap]
  constructor
  · rintro ⟨⟨item, i⟩, hitem, hmem⟩
    obtain ⟨b, hb, heq⟩ := List.mem_map.1 hmem
    exact ⟨i, item, List.mem_zipIdx_iff_getElem?.1 hitem, b, hb, heq.symm⟩
  · rintro ⟨i, item, hi, b, hb, heq⟩
    exact ⟨(item, i), List.mem_zipIdx_iff_getElem?.2 hi, List.mem_map.2 ⟨b, hb, heq.symm⟩⟩

/-- The listing has the entry at the end of every trail, and nothing else. -/
theorem mem_listing (n : Node) : ∀ trail visit,
    (trail, visit) ∈ n.listing ↔ n.EntryAt trail visit := by
  induction n using Node.induction with
  | map es ih =>
      intro trail visit
      rw [mem_listing_map]
      constructor
      · rintro ⟨i, key, value, hi, heq | ⟨b, hb, heq⟩⟩
        · cases heq
          exact .here hi
        · cases heq
          exact .inEntry hi ((ih _ (List.mem_of_getElem? hi) b.1 b.2).1 hb)
      · rintro (hi | ⟨hi, hbelow⟩)
        · exact ⟨_, _, _, hi, .inl rfl⟩
        · exact ⟨_, _, _, hi, .inr ⟨_, (ih _ (List.mem_of_getElem? hi) _ _).2 hbelow, rfl⟩⟩
  | list items ih =>
      intro trail visit
      rw [mem_listing_list]
      constructor
      · rintro ⟨i, item, hi, b, hb, heq⟩
        cases heq
        exact .inItem hi ((ih item (List.mem_of_getElem? hi) b.1 b.2).1 hb)
      · rintro (_ | _ | ⟨hi, hbelow⟩)
        exact ⟨_, _, hi, _, (ih _ (List.mem_of_getElem? hi) _ _).2 hbelow, rfl⟩
  | null | bool | number | string => exact fun _ _ => ⟨nofun, nofun⟩

theorem pairwise_zipIdx {α : Type} (xs : List α) (index : Nat) :
    (xs.zipIdx index).Pairwise fun a b => a.2 < b.2 := by
  have hrange : ((xs.zipIdx index).map Prod.snd).Pairwise (· < ·) := by
    rw [List.zipIdx_map_snd]
    exact List.pairwise_lt_range'
  exact List.pairwise_map.1 hrange

theorem pairwise_lower {entries : List (Trail × Visit)} (turn : Turn) (crumb : String)
    (h : entries.Pairwise fun a b => a.1.Precedes b.1) :
    (entries.map (lower turn crumb)).Pairwise fun a b => a.1.Precedes b.1 :=
  List.pairwise_map.2 (h.imp fun hab => List.Lex.cons hab)

/-- What an earlier turn leads to precedes what a later one leads to. -/
theorem precedes_of_lt {s t : Turn} (h : s.index < t.index) {p q : Trail}
    (hp : p.head? = some s) (hq : q.head? = some t) : p.Precedes q := by
  obtain ⟨p, rfl⟩ := List.head?_eq_some_iff.1 hp
  obtain ⟨q, rfl⟩ := List.head?_eq_some_iff.1 hq
  exact .rel h

theorem head_of_mem_lower {entries : List (Trail × Visit)} {turn : Turn} {crumb : String}
    {e : Trail × Visit} (h : e ∈ entries.map (lower turn crumb)) : e.1.head? = some turn := by
  obtain ⟨b, -, rfl⟩ := List.mem_map.1 h
  rfl

/-- The listing is in document order. -/
theorem pairwise_listing (n : Node) : n.listing.Pairwise fun a b => a.1.Precedes b.1 := by
  induction n using Node.induction with
  | map es ih =>
      rw [listing, listingEntries_eq, List.pairwise_flatMap]
      constructor
      · rintro ⟨⟨key, value⟩, i⟩ hentry
        have hi := List.mem_of_getElem? (List.mem_zipIdx_iff_getElem?.1 hentry)
        refine List.pairwise_cons.2 ⟨fun e he => ?_, pairwise_lower _ _ (ih (key, value) hi)⟩
        obtain ⟨b, hb, rfl⟩ := List.mem_map.1 he
        obtain ⟨turn, trail, htrail⟩ :=
          List.exists_cons_of_ne_nil ((mem_listing value b.1 b.2).1 hb).trail_ne_nil
        exact .cons (htrail ▸ .nil)
      · have hhead : ∀ (entry : (String × Node) × Nat) (e : Trail × Visit),
            e ∈ ([.entry entry.2], ⟨[], entry.1.1, entry.1.2⟩) ::
              entry.1.2.listing.map (lower (.entry entry.2) entry.1.1) →
            e.1.head? = some (.entry entry.2) := by
          intro entry e he
          rcases List.mem_cons.1 he with rfl | he
          · rfl
          · exact head_of_mem_lower he
        exact (pairwise_zipIdx es 0).imp fun hlt e he e' he' =>
          precedes_of_lt hlt (hhead _ e he) (hhead _ e' he')
  | list items ih =>
      rw [listing, listingItems_eq, List.pairwise_flatMap]
      constructor
      · rintro ⟨item, i⟩ hitem
        have hi := List.mem_of_getElem? (List.mem_zipIdx_iff_getElem?.1 hitem)
        exact pairwise_lower _ _ (ih item hi)
      · exact (pairwise_zipIdx items 0).imp fun hlt e he e' he' =>
          precedes_of_lt hlt (head_of_mem_lower he) (head_of_mem_lower he')
  | null | bool | number | string => exact .nil

theorem isListing_listing (n : Node) : n.IsListing n.listing where
  mem_iff := mem_listing n
  inOrder := List.pairwise_map.2 (pairwise_listing n)

/-! ### The walk -/

/-- A visit as a walk finds it that has gone along crumbs. -/
def behind (crumbs : Breadcrumb) (e : Trail × Visit) : Visit :=
  { e.2 with breadcrumb := crumbs ++ e.2.breadcrumb }

theorem behind_here (crumbs : Breadcrumb) (trail : Trail) (key : String) (value : Node) :
    behind crumbs (trail, ⟨[], key, value⟩) = ⟨crumbs, key, value⟩ := by
  simp [behind]

theorem behind_lower (crumbs : Breadcrumb) (turn : Turn) (crumb : String) (e : Trail × Visit) :
    behind crumbs (lower turn crumb e) = behind (crumbs ++ [crumb]) e := by
  simp [behind, lower, Visit.under]

end Node

mutual

/-- The walk visits the entries of the listing, in its order. -/
theorem Entries.visitsAt_eq : ∀ crumbs index es,
    Entries.visitsAt crumbs es = (Node.listingEntries index es).map (Node.behind crumbs)
  | _, _, [] => rfl
  | crumbs, index, (key, value) :: rest => by
      rw [Entries.visitsAt, Node.listingEntries, List.map_append, List.map_cons, List.map_map,
        Node.behind_here, Node.visitsAt_eq (crumbs ++ [key]) value,
        Entries.visitsAt_eq crumbs (index + 1) rest]
      simp [Node.behind_lower, Function.comp_def]

theorem Node.visitsAt_eq : ∀ crumbs n,
    Node.visitsAt crumbs n = (Node.listing n).map (Node.behind crumbs)
  | crumbs, .map es => Entries.visitsAt_eq crumbs 0 es
  | crumbs, .list items => Node.visitsItems_eq crumbs 0 items
  | _, .null => rfl
  | _, .bool _ => rfl
  | _, .number _ => rfl
  | _, .string _ => rfl

theorem Node.visitsItems_eq : ∀ crumbs index items,
    Node.visitsItems crumbs index items =
      (Node.listingItems index items).map (Node.behind crumbs)
  | _, _, [] => rfl
  | crumbs, index, item :: rest => by
      rw [Node.visitsItems, Node.listingItems, List.map_append, List.map_map,
        Node.visitsAt_eq (crumbs ++ [Nat.repr index]) item,
        Node.visitsItems_eq crumbs (index + 1) rest]
      simp [Node.behind_lower, Function.comp_def]

end

theorem Entries.visits_eq (es : Entries) : es.visits = (Node.map es).listing.map Prod.snd := by
  rw [Entries.visits, Entries.visitsAt_eq [] 0 es]
  rfl

/-! ### Selection -/

namespace Node

/-- What a selection picks of a listing. -/
def picks (pattern : List String) (e : Trail × Visit) : Bool :=
  decide (e.1.IsThroughMaps ∧ e.2.Fits pattern)

/-- What a selection finds where it has gone along crumbs. -/
def found (crumbs : Breadcrumb) (e : Trail × Visit) : Breadcrumb × Node :=
  (crumbs ++ e.2.breadcrumb, e.2.value)

theorem picks_nil (e : Trail × Visit) : picks [] e = false := by
  have hne := e.2.address_ne_nil
  simp [picks, Visit.Fits, hne]

theorem keyMatches_iff {p key : String} : keyMatches p key = true ↔ p = "*" ∨ p = key := by
  simp [keyMatches]

theorem picks_iff {pattern : List String} {e : Trail × Visit} :
    picks pattern e = true ↔ e.1.IsThroughMaps ∧ e.2.Fits pattern := decide_eq_true_iff

theorem picks_here (p : String) (ps : List String) (i : Nat) (key : String) (value : Node) :
    picks (p :: ps) ([.entry i], ⟨[], key, value⟩) = (keyMatches p key && ps.isEmpty) := by
  rw [Bool.eq_iff_iff, picks_iff, Bool.and_eq_true, keyMatches_iff]
  cases ps <;> simp [Visit.Fits, Visit.address, Trail.IsThroughMaps, Turn.isEntry]

theorem picks_lower (p : String) (ps : List String) (i : Nat) (key : String) (e : Trail × Visit) :
    picks (p :: ps) (lower (.entry i) key e) = (keyMatches p key && picks ps e) := by
  rw [Bool.eq_iff_iff, Bool.and_eq_true, picks_iff, picks_iff, keyMatches_iff]
  simp [lower, Visit.Fits, Trail.IsThroughMaps, Turn.isEntry, and_left_comm]

theorem picks_item (pattern : List String) (i : Nat) (crumb : String) (e : Trail × Visit) :
    picks pattern (lower (.item i) crumb e) = false := by
  simp [picks, lower, Trail.IsThroughMaps, Turn.isEntry]

theorem found_here (crumbs : Breadcrumb) (trail : Trail) (key : String) (value : Node) :
    found crumbs (trail, ⟨[], key, value⟩) = (crumbs, value) := by
  simp [found]

theorem found_lower (crumbs : Breadcrumb) (turn : Turn) (crumb : String) (e : Trail × Visit) :
    found crumbs (lower turn crumb e) = found (crumbs ++ [crumb]) e := by
  simp [found, lower, Visit.under]

/-- A selection below a value: only a map holds anything for it. -/
def selectAt (crumbs : Breadcrumb) (pattern : List String) : Node → List (Breadcrumb × Node)
  | .map es => Entries.selectAt crumbs pattern es
  | _ => []

end Node

/-- An entry whose key matches is found if the pattern ends with it, and is searched for the rest of
the pattern. -/
theorem Entries.selectAt_cons (crumbs : Breadcrumb) (p : String) (ps : List String) (es : Entries) :
    Entries.selectAt crumbs (p :: ps) es = es.flatMap fun e =>
      if keyMatches p e.1 then
        (if ps.isEmpty then [(crumbs, e.2)] else []) ++ e.2.selectAt (crumbs ++ [e.1]) ps
      else [] := by
  cases ps with
  | nil =>
      rw [Entries.selectAt]
      induction es with
      | nil => rfl
      | cons entry rest ih =>
          have hbelow : entry.2.selectAt (crumbs ++ [entry.1]) [] = [] := by
            cases entry.2 <;> rfl
          rw [List.flatMap_cons, ← ih, List.filter_cons, hbelow]
          cases keyMatches p entry.1 <;> rfl
  | cons next rest =>
      rw [Entries.selectAt]
      refine congrArg (List.flatMap · es) (funext fun e => ?_)
      cases e.2 <;> rfl

/-- A selection below a value picks from its listing: what stands in a list is not reached. -/
theorem Node.selectAt_listing {crumbs : Breadcrumb} {pattern : List String}
    (hmap : ∀ es : Entries, Entries.selectAt crumbs pattern es =
      ((listingEntries 0 es).filter (picks pattern)).map (found crumbs)) (n : Node) :
    n.selectAt crumbs pattern = (n.listing.filter (picks pattern)).map (found crumbs) := by
  cases n with
  | map es => exact hmap es
  | list items =>
      have hnone : (list items).listing.filter (picks pattern) = [] := by
        refine List.filter_eq_nil_iff.2 fun e he => ?_
        obtain ⟨i, item, -, b, -, rfl⟩ := mem_listing_list.1 he
        simp [picks_item]
      rw [hnone]
      rfl
  | null | bool | number | string => rfl

/-- **A selection picks from the listing**, in its order. -/
theorem Entries.selectAt_eq (pattern : List String) : ∀ crumbs index es,
    Entries.selectAt crumbs pattern es =
      ((Node.listingEntries index es).filter (Node.picks pattern)).map (Node.found crumbs) := by
  induction pattern with
  | nil =>
      intro crumbs index es
      have hnone : (Node.listingEntries index es).filter (Node.picks []) = [] :=
        List.filter_eq_nil_iff.2 fun e _ => by simp [Node.picks_nil]
      rw [hnone, Entries.selectAt]
      rfl
  | cons p ps ih =>
      intro crumbs index es
      rw [Entries.selectAt_cons]
      induction es generalizing index with
      | nil => rfl
      | cons entry rest ihrest =>
          obtain ⟨key, value⟩ := entry
          have hvalue := value.selectAt_listing (ih (crumbs ++ [key]) 0)
          have hbelow : Node.picks (p :: ps) ∘ Node.lower (.entry index) key =
              fun e => keyMatches p key && Node.picks ps e :=
            funext (Node.picks_lower p ps index key)
          have hfound : Node.found crumbs ∘ Node.lower (.entry index) key =
              Node.found (crumbs ++ [key]) := funext (Node.found_lower crumbs (.entry index) key)
          rw [List.flatMap_cons, ihrest (index + 1), Node.listingEntries, List.filter_append,
            List.map_append, List.filter_cons, Node.picks_here, List.filter_map, hbelow]
          dsimp only
          rw [hvalue]
          cases keyMatches p key with
          | false => simp
          | true => cases ps.isEmpty <;> simp [Node.found_here, hfound, List.map_map]

theorem Entries.select_eq (pattern : List String) (es : Entries) :
    es.select pattern = ((Node.map es).listing.filter (Node.picks pattern)).map fun e =>
      (e.2.breadcrumb, e.2.value) :=
  Entries.selectAt_eq pattern [] 0 es

/-! ### Addresses -/

namespace Node

variable {n : Node} {trail trail' : Trail} {visit visit' : Visit}

theorem index?_repr (i : Nat) : index? (Nat.repr i) = some i := by
  rw [index?, Nat.toList_repr, Nat.ofDigitChars_ten_toDigits, if_pos rfl]

/-- Where a map holds no key twice, a key is at one position. -/
theorem position_inj {es : Entries} (hes : es.keys.Nodup) {i j : Nat} {key : String}
    {value value' : Node} (hi : es[i]? = some (key, value)) (hj : es[j]? = some (key, value')) :
    i = j := by
  obtain ⟨hlt, -⟩ := List.getElem?_eq_some_iff.1 hi
  refine (List.getElem?_inj (by simpa [Entries.keys] using hlt) hes).1 ?_
  simp [Entries.keys, hi, hj]

/-- Where no map holds a key twice, an address leads to the entry that is visited there. -/
theorem EntryAt.follow?_address (h : n.EntryAt trail visit) (hn : n.IsCanonical) :
    n.follow? visit.address = some visit.value := by
  induction h with
  | @here es i key value h =>
      have hget := Entries.get?_of_mem (isCanonical_map.1 hn).1 (List.mem_of_getElem? h)
      simp [Visit.address, follow?, hget]
  | @inEntry es i key value trail visit h _ ih =>
      obtain ⟨hkeys, hvalues⟩ := isCanonical_map.1 hn
      have hget := Entries.get?_of_mem hkeys (List.mem_of_getElem? h)
      rw [Visit.address_under, follow?, hget, Option.bind_some, Visit.value_under]
      exact ih (hvalues _ (List.mem_of_getElem? h))
  | @inItem items i item trail visit h _ ih =>
      have hitem := isCanonical_list.1 hn item (List.mem_of_getElem? h)
      rw [Visit.address_under, follow?, index?_repr, Option.bind_some, h, Option.bind_some,
        Visit.value_under]
      exact ih hitem

/-- No two trails have one address there. -/
theorem EntryAt.trail_eq (h : n.EntryAt trail visit) (hn : n.IsCanonical) :
    ∀ {trail' visit'}, n.EntryAt trail' visit' → visit.address = visit'.address →
      trail = trail' := by
  induction h with
  | @here es i key value h =>
      intro trail' visit' h' heq
      cases h' with
      | @here _ j key' value' h' =>
          obtain rfl : key = key' := by simpa [Visit.address] using heq
          rw [position_inj (isCanonical_map.1 hn).1 h h']
      | @inEntry _ j key' value' trail' visit' h' below =>
          have htail := (List.cons.inj (heq.trans (Visit.address_under key' visit'))).2
          exact absurd htail.symm visit'.address_ne_nil
  | @inEntry es i key value trail visit h below ih =>
      intro trail' visit' h' heq
      cases h' with
      | @here _ j key' value' h' =>
          have htail := (List.cons.inj ((Visit.address_under key visit).symm.trans heq)).2
          exact absurd htail visit.address_ne_nil
      | @inEntry _ j key' value' trail' visit' h' below' =>
          obtain ⟨hkeys, hvalues⟩ := isCanonical_map.1 hn
          rw [Visit.address_under, Visit.address_under] at heq
          obtain ⟨rfl, htail⟩ := List.cons.inj heq
          obtain rfl := position_inj hkeys h h'
          rw [h] at h'
          cases h'
          rw [ih (hvalues _ (List.mem_of_getElem? h)) below' htail]
  | @inItem items i item trail visit h below ih =>
      intro trail' visit' h' heq
      cases h' with
      | @inItem _ j item' trail' visit' h' below' =>
        rw [Visit.address_under, Visit.address_under] at heq
        obtain ⟨hindex, htail⟩ := List.cons.inj heq
        obtain rfl : i = j := by simpa [index?_repr] using congrArg index? hindex
        rw [h] at h'
        cases h'
        rw [ih (isCanonical_list.1 hn item (List.mem_of_getElem? h)) below' htail]

/-- The addresses of a listing are distinct there. -/
theorem IsListing.nodup_addresses {listing : List (Trail × Visit)} (h : n.IsListing listing)
    (hn : n.IsCanonical) : (listing.map fun e => e.2.address).Nodup := by
  refine List.pairwise_map.2 ((List.pairwise_map.1 h.inOrder).imp_of_mem ?_)
  intro e e' he he' hbefore haddress
  have hentry := (h.mem_iff e.1 e.2).1 he
  exact hbefore.ne (hentry.trail_eq hn ((h.mem_iff e'.1 e'.2).1 he') haddress)

end Node

/-- **The walk and the selection agree.** The walk visits the map entries of a document, each once
and in document order, an entry before those below it; a selection finds, in the same order, the
breadcrumbs and values of the visits that are reached through maps alone and whose address fits the
pattern. If no map holds a key twice, the addresses are distinct, and each leads to the value that
is visited there. -/
theorem Entries.visits_select_agree (es : Entries) :
    ∃ listing, (Node.map es).IsListing listing ∧
      es.visits = listing.map Prod.snd ∧
      (∀ pattern, es.select pattern =
        (listing.filter fun e => e.1.IsThroughMaps ∧ e.2.Fits pattern).map fun e =>
          (e.2.breadcrumb, e.2.value)) ∧
      ((Node.map es).IsCanonical → (es.visits.map Visit.address).Nodup ∧
        ∀ visit ∈ es.visits, (Node.map es).follow? visit.address = some visit.value) := by
  have hlisting := (Node.map es).isListing_listing
  have hvisits := es.visits_eq
  refine ⟨_, hlisting, hvisits, es.select_eq, fun hes => ⟨?_, fun visit hvisit => ?_⟩⟩
  · rw [hvisits, List.map_map]
    exact hlisting.nodup_addresses hes
  · rw [hvisits] at hvisit
    obtain ⟨e, he, rfl⟩ := List.mem_map.1 hvisit
    exact ((hlisting.mem_iff e.1 e.2).1 he).follow?_address hes

/-- A key that looks like an index, and lists in lists: a pattern with the index finds the key
alone. -/
theorem Entries.visits_select_agree_nested :
    let es : Entries := [("a", .map [("0", .int 1), ("b", .list [.map [("0", .null)]])]),
      ("l", .list [.list [.map [("0", .bool true)]]])]
    (Node.map es).IsCanonical ∧
      es.visits.map Visit.address =
        [["a"], ["a", "0"], ["a", "b"], ["a", "b", "0", "0"], ["l"], ["l", "0", "0", "0"]] ∧
      es.select ["*", "0"] = [(["a"], .int 1)] ∧
      (es.visits.map Visit.address).Nodup ∧
      ∀ visit ∈ es.visits, (Node.map es).follow? visit.address = some visit.value := by
  intro es
  have hes : (Node.map es).IsCanonical := by decide
  obtain ⟨-, -, -, -, haddresses⟩ := visits_select_agree es
  exact ⟨hes, rfl, rfl, haddresses hes⟩

end SchemaWeave
