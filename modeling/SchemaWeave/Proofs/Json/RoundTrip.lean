import SchemaWeave.Proofs.Document.Parts
import SchemaWeave.Proofs.Json.Scalars

/-!
Reading what was written. The text of a value is read as that value in front of whatever may follow
a value (`Reads`). Lists and maps keep this up whatever blanks stand in front of their items, behind
their colons and in front of their closing bracket (`reads_list`, `reads_map`), so it holds of both
layouts of a document (`IsLayout.reads`).
-/

namespace SchemaWeave

/-- A node that is no float, and no integer that is too great for a signed and an unsigned word. -/
def Node.IsExact : Node → Prop
  | .number (.int n) => Number.FitsInt64 n ∨ Number.FitsUInt64 n
  | .number (.float _) => False
  | .string _ | .list _ | .map _ | .null | .bool _ => True

instance : DecidablePred Node.IsExact := fun n =>
  match n with
  | .number (.int n) => inferInstanceAs (Decidable (Number.FitsInt64 n ∨ Number.FitsUInt64 n))
  | .number (.float _) => inferInstanceAs (Decidable False)
  | .string _ | .list _ | .map _ | .null | .bool _ => inferInstanceAs (Decidable True)

namespace Json

/-- A text of blanks only. -/
def Blank (gap : List Char) : Prop := ∀ c ∈ gap, isBlank c = true

theorem blank_nil : Blank [] := nofun

theorem blank_jsonLine (level : Nat) : Blank (Node.jsonLine level) := by
  intro c hc
  rcases List.mem_cons.1 hc with rfl | hc
  · rfl
  · rw [List.eq_of_mem_replicate hc]
    rfl

theorem blank_space : Blank [' '] := List.forall_mem_singleton.2 rfl

theorem skipBlanks_append {gap : List Char} (hgap : Blank gap) (cs : List Char) :
    skipBlanks (gap ++ cs) = skipBlanks cs :=
  List.dropWhile_append_of_pos hgap

theorem skipBlanks_cons {c : Char} (hc : isBlank c = false) (cs : List Char) :
    skipBlanks (c :: cs) = c :: cs := by
  rw [skipBlanks, List.dropWhile_cons_of_neg (by simp [hc])]

theorem value_blanks {gap : List Char} (hgap : Blank gap) (fuel depth : Nat) (cs : List Char) :
    value fuel depth (gap ++ cs) = value fuel depth cs := by
  cases depth <;> simp only [value, skipBlanks_append hgap]

/-- A value begins with a character that is not blank and closes nothing. -/
def Begins (cs : List Char) : Prop :=
  ∃ c more, cs = c :: more ∧ isBlank c = false ∧ c ≠ ']' ∧ c ≠ '}'

/-- The text is read as the node, with room for so many brackets, in front of whatever ends a
value. -/
structure Reads (depth : Nat) (cs : List Char) (n : Node) : Prop where
  begins : Begins cs
  value_eq : ∀ {rest : List Char} {fuel : Nat}, Ends rest → (cs ++ rest).length < fuel →
    value fuel depth (cs ++ rest) = .ok (n, rest)

section Leaves

variable {depth : Nat}

theorem value_scalar {fuel : Nat} {c : Char} (hblank : isBlank c = false) (hlist : c ≠ '[')
    (hmap : c ≠ '{') (cs : List Char) : value fuel depth (c :: cs) = scalar fuel c cs := by
  unfold value
  rw [skipBlanks_cons hblank]
  split
  · next heq => cases heq
  · next heq => exact absurd (List.cons.inj heq).1 hlist
  · next heq => exact absurd (List.cons.inj heq).1 hmap
  · next heq =>
      obtain ⟨rfl, rfl⟩ := List.cons.inj heq
      rfl

/-- A character that a scalar may begin with. -/
def Opens (c : Char) : Prop :=
  isBlank c = false ∧ c ≠ '[' ∧ c ≠ '{' ∧ c ≠ ']' ∧ c ≠ '}'

theorem opens_of_isDigit {c : Char} (hc : isDigit c = true) : Opens c := by
  have hother (d : Char) (hd : isDigit d = false) : c ≠ d := by
    rintro rfl
    simp [hc] at hd
  refine ⟨?_, hother _ rfl, hother _ rfl, hother _ rfl, hother _ rfl⟩
  simp [isBlank, hother ' ' rfl, hother '\n' rfl, hother '\t' rfl, hother '\r' rfl]

theorem reads_scalar {c : Char} {cs : List Char} {n : Node} (hc : Opens c)
    (h : ∀ {rest : List Char} {fuel : Nat}, Ends rest → (cs ++ rest).length < fuel →
      scalar fuel c (cs ++ rest) = .ok (n, rest)) : Reads depth (c :: cs) n where
  begins := ⟨c, cs, rfl, hc.1, hc.2.2.2.1, hc.2.2.2.2⟩
  value_eq hrest hfuel := by
    rw [List.cons_append, value_scalar hc.1 hc.2.1 hc.2.2.1]
    exact h hrest (Nat.lt_of_succ_lt hfuel)

theorem reads_word (c : Char) (cs : List Char) (n : Node) (hc : Opens c)
    (h : ∀ fuel rest, scalar fuel c (cs ++ rest) = .ok (n, rest)) : Reads depth (c :: cs) n :=
  reads_scalar hc fun _ _ => h _ _

theorem reads_integer {n : Int} (h : Number.FitsInt64 n ∨ Number.FitsUInt64 n) :
    Reads depth (intText n) (.number (.int n)) := by
  obtain ⟨c, cs, htext, hc, hscalar⟩ := scalar_intText h
  rw [htext]
  refine reads_scalar ?_ fun hrest _ => hscalar _ _ hrest
  rcases hc with rfl | hc
  · exact ⟨rfl, by decide⟩
  · exact opens_of_isDigit hc

/-- A quoted text is read behind its opening quote. -/
theorem ofQuote_unquote {fuel : Nat} {text rest : List Char}
    (hfuel : (text.flatMap escapeChar ++ '"' :: rest).length < fuel) :
    ofQuote (unquote fuel (text.flatMap escapeChar ++ '"' :: rest)) = .ok (text, rest) := by
  rw [List.length_append] at hfuel
  rw [unquote_escaped rest (by omega), ofQuote]

theorem reads_quote (text : String) : Reads depth (quote text.toList) (.string text) := by
  change Reads depth ('"' :: (text.toList.flatMap escapeChar ++ ['"'])) _
  refine reads_scalar ⟨rfl, by decide⟩ fun {rest fuel} _ hfuel => ?_
  rw [List.append_assoc, List.singleton_append] at hfuel ⊢
  simp [scalar, isDigit, ofQuote_unquote hfuel, bind, Except.bind]

end Leaves

section Lists

/-- Texts, each behind a comma and a gap, and what closes the list. -/
def rows (gap closing : List Char) : List (List Char) → List Char
  | [] => closing
  | text :: texts => ',' :: gap ++ text ++ rows gap closing texts

variable {depth fuel k : Nat} {gap last space : List Char}

theorem ends_rows (gap : List Char) (hlast : Blank last) {closing : Char}
    (hclosing : closing = ']' ∨ closing = '}') (texts : List (List Char)) (rest : List Char) :
    Ends (rows gap (last ++ [closing]) texts ++ rest) := by
  cases texts with
  | nil =>
      cases last with
      | nil =>
          rintro c ⟨⟩
          exact .inr (.inr hclosing)
      | cons b last =>
          rintro c ⟨⟩
          exact .inl (hlast b List.mem_cons_self)
  | cons text texts =>
      rintro c ⟨⟩
      exact .inr (.inl rfl)

/-- Behind the last item the closing bracket is found. -/
theorem skipBlanks_closing (hlast : Blank last) {closing : Char}
    (hclosing : closing = ']' ∨ closing = '}') (rest : List Char) :
    skipBlanks (last ++ [closing] ++ rest) = closing :: rest := by
  rw [List.append_assoc, skipBlanks_append hlast]
  rcases hclosing with rfl | rfl <;> rfl

/-- The text is read as the item, with any fuel up to the given one, in front of what ends it. -/
structure Takes {α : Type} (fuel : Nat) (read : Nat → List Char → Result (α × List Char))
    (cs : List Char) (x : α) : Prop where
  begins : Begins cs
  read_eq : ∀ {rest : List Char} {k : Nat}, Ends rest → (cs ++ rest).length < k → k ≤ fuel →
    read k (cs ++ rest) = .ok (x, rest)

/-- A reader of items up to a bracket reads the last one in front of the bracket, and every other
one in front of a comma and a character that is not the bracket. -/
structure IsSequence {α : Type} (closing : Char) (read : Nat → List Char → Result (α × List Char))
    (readAll : Nat → List Char → Result (List α × List Char)) : Prop where
  last : ∀ {k : Nat} {x : α} {cs rest after : List Char}, read (k + 1) cs = .ok (x, rest) →
    skipBlanks rest = closing :: after → readAll (k + 1) cs = .ok ([x], after)
  next : ∀ {k : Nat} {x : α} {xs : List α} {c : Char} {cs rest more after : List Char},
    read (k + 1) cs = .ok (x, ',' :: rest) → skipBlanks rest = c :: more → c ≠ closing →
      readAll k (c :: more) = .ok (xs, after) → readAll (k + 1) cs = .ok (x :: xs, after)

theorem items_isSequence (item : List Char → Result (Node × List Char)) :
    IsSequence ']' (fun _ => item) (items item) where
  last hitem hrest := by simp only [items, hitem, bind, Except.bind, hrest]
  next hitem hrest hc hothers := by
    have hcomma := skipBlanks_cons (show isBlank ',' = false from rfl)
    simp only [items, hitem, bind, Except.bind, hcomma, hrest, hothers]

theorem entries_isSequence (value : List Char → Result (Node × List Char)) :
    IsSequence '}' (entry value) (entries value) where
  last hentry hrest := by simp only [entries, hentry, bind, Except.bind, hrest]
  next hentry hrest hc hothers := by
    have hcomma := skipBlanks_cons (show isBlank ',' = false from rfl)
    simp only [entries, hentry, bind, Except.bind, hcomma, hrest, hothers]

/-- **Items are read one after the other**, up to the bracket. -/
theorem IsSequence.read_rows {α : Type} {closing : Char}
    {read : Nat → List Char → Result (α × List Char)}
    {readAll : Nat → List Char → Result (List α × List Char)}
    (hreads : IsSequence closing read readAll) (hclosing : closing = ']' ∨ closing = '}')
    (hgap : Blank gap) (hlast : Blank last) {write : α → List Char} {x : α} {xs : List α}
    (h : ∀ item ∈ x :: xs, Takes fuel read (write item) item) (rest : List Char)
    (hk : (write x ++ (rows gap (last ++ [closing]) (xs.map write) ++ rest)).length < k)
    (hfuel : k ≤ fuel) :
    readAll k (write x ++ (rows gap (last ++ [closing]) (xs.map write) ++ rest)) =
      .ok (x :: xs, rest) := by
  -- Every item takes one step of the fuel `k`, which is still enough for what is left to be read.
  induction xs generalizing x k with
  | nil =>
      have hx := (h x List.mem_cons_self).read_eq (ends_rows gap hlast hclosing [] rest) hk hfuel
      obtain ⟨k, rfl⟩ := Nat.exists_eq_succ_of_ne_zero (Nat.ne_zero_of_lt hk)
      exact hreads.last hx (skipBlanks_closing hlast hclosing rest)
  | cons y ys ih =>
      obtain ⟨hx, hxs⟩ := List.forall_mem_cons.1 h
      have hread := hx.read_eq (ends_rows gap hlast hclosing ((y :: ys).map write) rest) hk hfuel
      obtain ⟨k, rfl⟩ := Nat.exists_eq_succ_of_ne_zero (Nat.ne_zero_of_lt hk)
      have hrows : rows gap (last ++ [closing]) ((y :: ys).map write) ++ rest =
          ',' :: (gap ++ (write y ++ (rows gap (last ++ [closing]) (ys.map write) ++ rest))) := by
        simp only [List.map_cons, rows, List.cons_append, List.append_assoc]
      rw [hrows] at hread hk ⊢
      have hothers := ih (k := k) hxs (by simp at hk ⊢; omega) (by omega)
      obtain ⟨c, more, hc, hblank, hlist, hmap⟩ := (hxs y List.mem_cons_self).begins
      have hother : c ≠ closing := by
        rintro rfl
        exact hclosing.elim hlist hmap
      rw [hc, List.cons_append] at hothers hread ⊢
      exact hreads.next hread ((skipBlanks_append hgap _).trans (skipBlanks_cons hblank _)) hother
        hothers

variable {text : Node → List Char}

theorem Reads.takes {cs : List Char} {n : Node} (h : Reads depth cs n) :
    Takes fuel (fun _ => value fuel depth) cs n where
  begins := h.begins
  read_eq hrest hk hfuel := h.value_eq hrest (Nat.lt_of_lt_of_le hk hfuel)

theorem reads_list (hgap : Blank gap) (hlast : Blank last) {x : Node} {xs : List Node}
    (h : ∀ item ∈ x :: xs, Reads depth (text item) item) :
    Reads (depth + 1) ('[' :: gap ++ text x ++ rows gap (last ++ [']']) (xs.map text))
      (.list (x :: xs)) where
  begins := ⟨'[', _, rfl, rfl, by decide⟩
  value_eq {rest fuel} _ hfuel := by
    simp only [List.cons_append, List.append_assoc] at hfuel ⊢
    have hitems := (items_isSequence (value fuel depth)).read_rows (.inl rfl) hgap hlast
      (fun item hitem => (h item hitem).takes) rest (by simp at hfuel ⊢; omega) (Nat.le_refl fuel)
    -- an item does not begin with a bracket that closes, so the list is not taken for the empty one
    obtain ⟨c, more, hc, hblank, hlist, -⟩ := (h x List.mem_cons_self).begins
    rw [hc, List.cons_append] at hitems ⊢
    simp only [value, skipBlanks_cons (show isBlank '[' = false from rfl), skipBlanks_append hgap,
      skipBlanks_cons hblank]
    split
    · next heq => cases heq
    · next heq => exact absurd (List.cons.inj heq).1 hlist
    · simp only [hitems, bind, Except.bind]

/-- The text of an entry, with blanks behind its colon. -/
def entryText (space : List Char) (text : Node → List Char) (entry : String × Node) : List Char :=
  quote entry.1.toList ++ ':' :: space ++ text entry.2

theorem takes_entryText (hspace : Blank space) {e : String × Node}
    (he : Reads depth (text e.2) e.2) :
    Takes fuel (entry (value fuel depth)) (entryText space text e) e := by
  refine ⟨⟨'"', _, rfl, rfl, by decide⟩, fun {rest k} hrest hk hfuel => ?_⟩
  have htext : entryText space text e ++ rest = '"' :: (e.1.toList.flatMap escapeChar ++
      '"' :: ':' :: (space ++ (text e.2 ++ rest))) := by
    simp only [entryText, quote, List.cons_append, List.append_assoc, List.nil_append]
  rw [htext] at hk ⊢
  have hvalue : value fuel depth (space ++ (text e.2 ++ rest)) = .ok (e.2, rest) := by
    rw [value_blanks hspace]
    exact he.value_eq hrest (by simp at hk ⊢; omega)
  have hcolon := skipBlanks_cons (show isBlank ':' = false from rfl)
  simp only [entry, ofQuote_unquote (Nat.lt_of_succ_lt hk), hcolon, hvalue, bind, Except.bind,
    String.ofList_toList]

theorem reads_map (hgap : Blank gap) (hlast : Blank last) (hspace : Blank space)
    {e : String × Node} {es : Entries}
    (h : ∀ entry ∈ e :: es, Reads depth (text entry.2) entry.2) :
    Reads (depth + 1) ('{' :: gap ++ entryText space text e ++
      rows gap (last ++ ['}']) (es.map (entryText space text))) (.map (e :: es)) where
  begins := ⟨'{', _, rfl, rfl, by decide⟩
  value_eq {rest fuel} _ hfuel := by
    have htakes : ∀ entry ∈ e :: es, Takes fuel (Json.entry (value fuel depth))
        (entryText space text entry) entry :=
      fun entry hentry => takes_entryText hspace (h entry hentry)
    simp only [List.cons_append, List.append_assoc] at hfuel ⊢
    have hentries := (entries_isSequence (value fuel depth)).read_rows (.inr rfl) hgap hlast
      htakes rest (by simp at hfuel ⊢; omega) (Nat.le_refl fuel)
    obtain ⟨c, more, hc, hblank, -, hmap⟩ := (htakes e List.mem_cons_self).begins
    rw [hc, List.cons_append] at hentries ⊢
    simp only [value, skipBlanks_cons (show isBlank '{' = false from rfl), skipBlanks_append hgap,
      skipBlanks_cons hblank]
    split
    · next heq => cases heq
    · next heq => exact absurd (List.cons.inj heq).1 hmap
    · simp only [hentries, bind, Except.bind]

end Lists

section Layouts

/-- A layout of documents at levels: lists and maps of blanks, commas, colons and what is in them,
one level deeper; everything else without blanks. -/
structure IsLayout (text : Nat → Node → List Char) : Prop where
  null : ∀ level, text level .null = Node.null.compact
  bool : ∀ level b, text level (.bool b) = (Node.bool b).compact
  number : ∀ level x, text level (.number x) = (Node.number x).compact
  string : ∀ level s, text level (.string s) = (Node.string s).compact
  emptyList : ∀ level, text level (.list []) = (Node.list []).compact
  emptyMap : ∀ level, text level (.map []) = (Node.map []).compact
  list : ∀ level x xs, ∃ gap last, Blank gap ∧ Blank last ∧
    text level (.list (x :: xs)) = '[' :: gap ++ text (level + 1) x ++
      rows gap (last ++ [']']) (xs.map (text (level + 1)))
  map : ∀ level e es, ∃ gap last space, Blank gap ∧ Blank last ∧ Blank space ∧
    text level (.map (e :: es)) = '{' :: gap ++ entryText space (text (level + 1)) e ++
      rows gap (last ++ ['}']) (es.map (entryText space (text (level + 1))))

theorem compactItems_eq (items : List Node) :
    Node.compactItems items = rows [] ([] ++ [']']) (items.map Node.compact) := by
  induction items with
  | nil => rfl
  | cons item items ih =>
      rw [Node.compactItems, ih]
      rfl

theorem compactEntries_eq (es : Entries) :
    Node.compactEntries es = rows [] ([] ++ ['}']) (es.map (entryText [] Node.compact)) := by
  induction es with
  | nil => rfl
  | cons e es ih =>
      simp only [Node.compactEntries, ih, List.map_cons, rows, entryText, List.cons_append,
        List.append_assoc, List.nil_append]

/-- Compact text is a layout without any blank. -/
theorem isLayout_compact : IsLayout fun _ => Node.compact where
  null _ := rfl
  bool _ _ := rfl
  number _ _ := rfl
  string _ _ := rfl
  emptyList _ := rfl
  emptyMap _ := rfl
  list _ x xs := by
    refine ⟨[], [], blank_nil, blank_nil, ?_⟩
    rw [Node.compact, compactItems_eq]
    rfl
  map _ e es := by
    refine ⟨[], [], [], blank_nil, blank_nil, blank_nil, ?_⟩
    simp only [Node.compact, compactEntries_eq, entryText, List.cons_append, List.append_assoc,
      List.nil_append]

theorem indentedItems_eq (level : Nat) (items : List Node) :
    Node.indentedItems level items =
      rows (Node.jsonLine (level + 1)) (Node.jsonLine level ++ [']'])
        (items.map (Node.indented (level + 1))) := by
  induction items with
  | nil => rfl
  | cons item items ih => rw [Node.indentedItems, ih, List.map_cons, rows]

theorem indentedEntries_eq (level : Nat) (es : Entries) :
    Node.indentedEntries level es =
      rows (Node.jsonLine (level + 1)) (Node.jsonLine level ++ ['}'])
        (es.map (entryText [' '] (Node.indented (level + 1)))) := by
  induction es with
  | nil => rfl
  | cons e es ih =>
      simp only [Node.indentedEntries, ih, List.map_cons, rows, entryText, List.cons_append,
        List.append_assoc, List.nil_append]

/-- Indented text is a layout with a line for every item. -/
theorem isLayout_indented : IsLayout Node.indented where
  null _ := by rw [Node.indented, Node.compact]
  bool _ b := by cases b <;> rw [Node.indented, Node.compact]
  number _ _ := by rw [Node.indented, Node.compact]
  string _ _ := by rw [Node.indented, Node.compact]
  emptyList _ := by rw [Node.indented, Node.compact]
  emptyMap _ := by rw [Node.indented, Node.compact]
  list level x xs := by
    refine ⟨Node.jsonLine (level + 1), Node.jsonLine level, blank_jsonLine _, blank_jsonLine _, ?_⟩
    rw [Node.indented, indentedItems_eq]
  map level e es := by
    refine ⟨Node.jsonLine (level + 1), Node.jsonLine level, [' '], blank_jsonLine _,
      blank_jsonLine _, blank_space, ?_⟩
    simp only [Node.indented, indentedEntries_eq, entryText, List.cons_append, List.append_assoc,
      List.nil_append]

theorem reads_emptyList (depth : Nat) : Reads (depth + 1) ['[', ']'] (.list []) where
  begins := ⟨'[', _, rfl, rfl, by decide⟩
  value_eq _ _ := rfl

theorem reads_emptyMap (depth : Nat) : Reads (depth + 1) ['{', '}'] (.map []) where
  begins := ⟨'{', _, rfl, rfl, by decide⟩
  value_eq _ _ := rfl

/-- **A layout of a document is read as the document**, with room for its brackets. -/
theorem IsLayout.reads {text : Nat → Node → List Char} (htext : IsLayout text) {n : Node}
    (h : n.Throughout Node.IsExact) :
    ∀ level depth, n.nesting ≤ depth → Reads depth (text level n) n := by
  -- The levels and the room for brackets go along: what is inside a list is one level deeper.
  induction n using Node.induction with
  | map es ih =>
      intro level depth hdepth
      obtain ⟨-, hvalues⟩ := Node.throughout_map.1 h
      rw [Node.nesting] at hdepth
      obtain ⟨depth, rfl⟩ := Nat.exists_eq_succ_of_ne_zero (Nat.ne_zero_of_lt hdepth)
      have hnested := Node.nestingOfEntries_le.1 (Nat.le_of_succ_le_succ hdepth)
      cases es with
      | nil =>
          rw [htext.emptyMap]
          exact reads_emptyMap depth
      | cons e es =>
          obtain ⟨gap, last, space, hgap, hlast, hspace, heq⟩ := htext.map level e es
          rw [heq]
          exact reads_map hgap hlast hspace fun entry hentry =>
            ih entry hentry (hvalues entry hentry) (level + 1) depth (hnested entry hentry)
  | list items ih =>
      intro level depth hdepth
      obtain ⟨-, hvalues⟩ := Node.throughout_list.1 h
      rw [Node.nesting] at hdepth
      obtain ⟨depth, rfl⟩ := Nat.exists_eq_succ_of_ne_zero (Nat.ne_zero_of_lt hdepth)
      have hnested := Node.nestingOfItems_le.1 (Nat.le_of_succ_le_succ hdepth)
      cases items with
      | nil =>
          rw [htext.emptyList]
          exact reads_emptyList depth
      | cons x xs =>
          obtain ⟨gap, last, hgap, hlast, heq⟩ := htext.list level x xs
          rw [heq]
          exact reads_list hgap hlast fun item hitem =>
            ih item hitem (hvalues item hitem) (level + 1) depth (hnested item hitem)
  | null =>
      intro level depth _
      rw [htext.null]
      exact reads_word 'n' _ .null ⟨rfl, by decide⟩ fun _ _ => rfl
  | bool b =>
      intro level depth _
      rw [htext.bool]
      cases b with
      | true => exact reads_word 't' _ (.bool true) ⟨rfl, by decide⟩ fun _ _ => rfl
      | false => exact reads_word 'f' _ (.bool false) ⟨rfl, by decide⟩ fun _ _ => rfl
  | number x =>
      intro level depth _
      rw [htext.number]
      have hx : Node.IsExact (.number x) := h.self
      cases x with
      | float x => exact hx.elim
      | int n => exact reads_integer hx
  | string s =>
      intro level depth _
      rw [htext.string]
      exact reads_quote s

theorem IsLayout.ofJson_eq {text : Nat → Node → List Char} (htext : IsLayout text) {n : Node}
    (h : n.Throughout Node.IsExact) (hdepth : n.nesting ≤ maxDepth) :
    Node.ofJson (String.ofList (text 0 n)) = .ok n := by
  have hreads := (htext.reads h 0 maxDepth hdepth).value_eq ends_nil
    (Nat.lt_succ_self (text 0 n ++ []).length)
  rw [List.append_nil] at hreads
  rw [Node.ofJson, read, String.toList_ofList, hreads]
  rfl

end Layouts

end Json

/-- **JSON text gives a document back**, in either layout, if its numbers are integers of a signed
or unsigned word and its maps and lists nest at most 127 deep. -/
theorem Node.ofJson_toJson (n : Node) (hnumbers : n.Throughout IsExact) (hdepth : n.nesting ≤ 127) :
    ofJson n.toJson = .ok n ∧ ofJson n.toJsonPretty = .ok n :=
  ⟨Json.isLayout_compact.ofJson_eq hnumbers hdepth,
    Json.isLayout_indented.ofJson_eq hnumbers hdepth⟩

/-- The ends of both words, a key that repeats, empty containers, brackets and escapes in texts, and
a control character that is written by its code. -/
theorem Node.ofJson_toJson_escapes :
    let n : Node := .map [("a", .list [.int (-9223372036854775808), .int 18446744073709551615]),
      ("a", .map [("", .list []), ("]", .map []), ("\"é\"", .string "\\\r\n\t\x1f, ∎")]),
      ("1", .list [.int 1, .string "1", .bool true, .string "true", .null, .string "null"])]
    (n.Throughout IsExact ∧ n.nesting ≤ 127) ∧
      ofJson n.toJson = .ok n ∧ ofJson n.toJsonPretty = .ok n := by
  intro n
  have hn : n.Throughout IsExact ∧ n.nesting ≤ 127 := by decide
  exact ⟨hn, ofJson_toJson n hn.1 hn.2⟩

end SchemaWeave
