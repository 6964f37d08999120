import SchemaWeave.Json.Printer
import SchemaWeave.Proofs.Document.Parts
import SchemaWeave.Proofs.Grammar.Completeness

/-!
The compact JSON text of a document, read as an expression. Its numbers, strings and words are
tokens, its lists and maps are arrays and objects with one entry after the other, and none of its
brackets nests deeper than its maps and lists do. So it derives the tree of literals that spells the
document (`Expr.ofNode`), and is parsed as that tree (`parse_toJson`).
-/

namespace SchemaWeave

namespace Expr

mutual

/-- The literals, arrays and objects that spell a document. -/
def ofNode : Node → Expr
  | .null => .literal .null
  | .bool b => .literal (.bool b)
  | .number (.int n) => .literal (.integer n)
  | .number (.float x) => .literal (.float x)
  | .string text => .literal (.string text)
  | .list items => .array (elementsOf items)
  | .map es => .object (propertiesOf es)

def elementsOf : List Node → List (Element Expr)
  | [] => []
  | item :: rest => .item (ofNode item) :: elementsOf rest

def propertiesOf : List (String × Node) → List (Property Expr)
  | [] => []
  | (key, value) :: rest => .entry key (ofNode value) :: propertiesOf rest

end

end Expr

/-- A text without control characters, apart from line ends and tabs. -/
def HasShortEscapes (text : String) : Prop :=
  ∀ c ∈ text.toList, c.toNat < 32 → c = '\n' ∨ c = '\r' ∨ c = '\t'

-- The characters of the text are looked at, not all that there are.
instance : DecidablePred HasShortEscapes := fun text => List.decidableBAll _ text.toList

/-- A node that is written with the same letters as an expression and as JSON: numbers are integers
of a signed word, and texts and keys have no escapes but the short ones. -/
def Node.IsSpellable : Node → Prop
  | .number (.int n) => Number.FitsInt64 n
  | .number (.float _) => False
  | .string text => HasShortEscapes text
  | .map es => ∀ key ∈ Entries.keys es, HasShortEscapes key
  | .list _ | .null | .bool _ => True

instance : DecidablePred Node.IsSpellable := fun n =>
  match n with
  | .number (.int n) => inferInstanceAs (Decidable (Number.FitsInt64 n))
  | .number (.float _) => inferInstanceAs (Decidable False)
  | .string text => inferInstanceAs (Decidable (HasShortEscapes text))
  | .map es => inferInstanceAs (Decidable (∀ key ∈ Entries.keys es, HasShortEscapes key))
  | .list _ => inferInstanceAs (Decidable True)
  | .null => inferInstanceAs (Decidable True)
  | .bool _ => inferInstanceAs (Decidable True)

namespace Grammar

open SchemaWeave.Expr (isNameStart isNameChar isDigit Numeral name? skipBlanks maxNesting)

/-- What may follow a value in JSON text. -/
def Ends (rest : List Char) : Prop := ∀ c ∈ rest.head?, c = ',' ∨ c = ']' ∨ c = '}'

theorem ends_nil : Ends [] := nofun

theorem Ends.cut {rest : List Char} (h : Ends rest) {p : Char → Bool}
    (hp : p ',' = false ∧ p ']' = false ∧ p '}' = false) :
    rest.takeWhile p = [] ∧ rest.dropWhile p = rest := by
  cases rest with
  | nil => exact ⟨rfl, rfl⟩
  | cons c rest =>
      have hc : p c = false := by
        rcases h c rfl with rfl | rfl | rfl
        · exact hp.1
        · exact hp.2.1
        · exact hp.2.2
      simp [hc]

section Leaves

variable {rest : List Char}

/-- A word in front of the end of a value is one token. -/
theorem read?_word {c : Char} {cs : List Char} (hc : isNameStart c = true)
    (hcs : cs.all isNameChar = true) (h : Ends rest) :
    Token.read? (c :: cs ++ rest) = some (.name (String.ofList (c :: cs)), rest) := by
  obtain ⟨htake, hdrop⟩ := h.cut (p := isNameChar) (by decide)
  apply read?_of_name
  rw [name?_append hc (List.all_eq_true.1 hcs), htake, hdrop, List.append_nil]

theorem digits_digitChars (n : Nat) : Digits (Decimal.digitChars n) := by
  refine ⟨Nat.toDigits_ne_nil, fun d hd => ?_⟩
  have hdigit := Nat.isDigit_of_mem_toDigits (by decide) (by decide) hd
  simpa [isDigit, Char.isDigit, Char.le_def] using hdigit

theorem digitsValue_digitChars (n : Nat) : Expr.digitsValue (Decimal.digitChars n) = n := by
  have hfold : Expr.digitsValue = fun ds => Nat.ofDigitChars 10 ds 0 := by
    funext ds
    simp only [Expr.digitsValue, Nat.ofDigitChars, Nat.mul_comm 10]
    rfl
  rw [hfold]
  exact Nat.ofDigitChars_toDigits (by decide) (by decide)

/-- An integer as a numeral: its sign and its digits. -/
def integerNumeral (n : Int) : Numeral := ⟨decide (n < 0), Decimal.digitChars n.natAbs, none, none⟩

theorem wholeValue_integerNumeral (n : Int) : wholeValue (integerNumeral n) = n := by
  simp only [wholeValue, integerNumeral, digitsValue_digitChars, decide_eq_true_eq]
  split <;> omega

/-- No fraction and no exponent begins where a value ends. -/
theorem Ends.no_fraction (h : Ends rest) :
    Expr.fractionPart rest = (none, rest) ∧ Expr.exponentPart rest = (none, rest) := by
  cases rest with
  | nil => exact ⟨rfl, rfl⟩
  | cons c rest => rcases h c rfl with rfl | rfl | rfl <;> exact ⟨rfl, rfl⟩

theorem readUnsigned_integer (negative : Bool) {ds : List Char} (hds : Digits ds)
    (h : Ends rest) :
    readUnsigned negative (ds ++ rest) = some (⟨negative, ds, none, none⟩, rest) := by
  obtain ⟨htake, hdrop⟩ := h.cut (p := isDigit) (by decide)
  obtain ⟨hfraction, hexponent⟩ := h.no_fraction
  simp only [readUnsigned, someDigits?_append hds, htake, hdrop, List.append_nil, Option.map_some,
    hfraction, hexponent]

/-- An integer in front of the end of a value is one token. -/
theorem read?_integer (n : Int) (h : Ends rest) :
    Token.read? (Json.intText n ++ rest) = some (.numeral (integerNumeral n), rest) := by
  have hdigits : Digits (Decimal.digitChars n.natAbs) := digits_digitChars n.natAbs
  apply read?_of_numeral
  by_cases hn : n < 0
  · rw [Json.intText, if_pos hn, List.cons_append, read?_minus,
      readUnsigned_integer true hdigits h, integerNumeral, decide_eq_true hn]
  · have hunsigned : (Decimal.digitChars n.natAbs ++ rest).head? ≠ some '-' := by
      obtain ⟨d, ds, hd⟩ := List.exists_cons_of_ne_nil hdigits.1
      have hdigit := hdigits.2 d (hd ▸ List.mem_cons_self)
      rw [hd]
      rintro ⟨⟩
      cases hdigit
    rw [Json.intText, if_neg hn, read?_other hunsigned, readUnsigned_integer false hdigits h,
      integerNumeral, decide_eq_false hn]

/-- A character without a longer escape is written as one that expressions know, or as itself. -/
theorem escapeChar_cases {c : Char} (hc : c.toNat < 32 → c = '\n' ∨ c = '\r' ∨ c = '\t') :
    (∃ e, (e, c) ∈ escapes ∧ Json.escapeChar c = ['\\', e]) ∨
      (c ≠ '"' ∧ c ≠ '\\' ∧ Json.escapeChar c = [c]) := by
  by_cases hshort : c = '"' ∨ c = '\\' ∨ c = '\n' ∨ c = '\r' ∨ c = '\t'
  · left
    rcases hshort with rfl | rfl | rfl | rfl | rfl <;> exact ⟨_, by decide, rfl⟩
  · right
    obtain ⟨hquote, hbackslash, hshort⟩ :
        c ≠ '"' ∧ c ≠ '\\' ∧ ¬ (c = '\n' ∨ c = '\r' ∨ c = '\t') := by
      simpa only [not_or] using hshort
    have hprinted : ¬ c.toNat < 32 := mt hc hshort
    have hcontrol (d : Char) (hd : d.toNat < 32) : c ≠ d := by
      rintro rfl
      exact hprinted hd
    refine ⟨hquote, hbackslash, ?_⟩
    simp only [Json.escapeChar, if_neg hquote, if_neg hbackslash, if_neg hprinted,
      if_neg (hcontrol '\x08' (by decide)), if_neg (hcontrol '\x0c' (by decide)),
      if_neg (hcontrol '\n' (by decide)), if_neg (hcontrol '\r' (by decide)),
      if_neg (hcontrol '\t' (by decide))]

theorem quoted_escaped {text : List Char}
    (h : ∀ c ∈ text, c.toNat < 32 → c = '\n' ∨ c = '\r' ∨ c = '\t') :
    Quoted '"' text (text.flatMap Json.escapeChar) := by
  induction text with
  | nil => exact .nil
  | cons c text ih =>
      obtain ⟨hc, htext⟩ := List.forall_mem_cons.1 h
      rw [List.flatMap_cons]
      rcases escapeChar_cases hc with ⟨e, he, hescape⟩ | ⟨hquote, hbackslash, hescape⟩
      · rw [hescape]
        exact .escaped he (ih htext)
      · rw [hescape]
        exact .plain hquote hbackslash (ih htext)

/-- A quoted text is one token, whatever follows. -/
theorem read?_quote {text : String} (h : HasShortEscapes text) (rest : List Char) :
    Token.read? (Json.quote text.toList ++ rest) = some (.string text, rest) := by
  have hstring := string?_complete (.inl rfl) (quoted_escaped h) rest
  rw [String.ofList_toList] at hstring
  exact read?_of_string hstring

end Leaves

/-- In front of the end of a value the text falls into tokens with the property, and its brackets
fit inside so many others if those behind it do. -/
def Spells (depth : Nat) (cs : List Char) (P : List Token → Prop) : Prop :=
  ∀ rest, Ends rest → ∃ ts, P ts ∧ Spans (cs ++ rest) ts rest ∧
    (Fits depth rest → Fits depth (cs ++ rest))

theorem spells_token {depth : Nat} {cs : List Char} {P : List Token → Prop} {t : Token}
    (hP : P [t]) (ht : ∀ c, t ≠ .mark c)
    (hread : ∀ {rest}, Ends rest → Token.read? (cs ++ rest) = some (t, rest)) :
    Spells depth cs P := by
  intro rest hrest
  have hplain : ∀ c, t = .mark c → IsPlain c := fun c hc => absurd hc (ht c)
  exact ⟨[t], hP, .token (hread hrest), (fits_token (hread hrest) hplain depth).2⟩

section Lists

/-- Texts, each after a comma, and the closing bracket. -/
def moreTexts (closing : Char) : List (List Char) → List Char
  | [] => [closing]
  | text :: texts => ',' :: text ++ moreTexts closing texts

/-- Texts with a comma between each two, and the closing bracket. -/
def listedTexts (closing : Char) : List (List Char) → List Char
  | [] => [closing]
  | text :: texts => text ++ moreTexts closing texts

variable {α β : Type} {P : List Token → α → Prop} {text : β → List Char} {value : β → α}
  {closing : Char} {depth : Nat} {xs : List β}

theorem ends_moreTexts (hclosing : closing = ']' ∨ closing = '}') (texts : List (List Char))
    (rest : List Char) : Ends (moreTexts closing texts ++ rest) := by
  cases texts with
  | nil =>
      rintro c ⟨⟩
      exact .inr hclosing
  | cons =>
      rintro c ⟨⟩
      exact .inl rfl

theorem mark_of_closing (hclosing : closing = ']' ∨ closing = '}') :
    closing ∈ marks ∧ closing ≠ '.' := by
  rcases hclosing with rfl | rfl <;> decide

theorem moreTexts_spells (hclosing : closing = ']' ∨ closing = '}')
    (hxs : ∀ x ∈ xs, Spells (depth + 1) (text x) (P · (value x))) (rest : List Char) :
    ∃ ts, MoreItems P ts (xs.map value) ∧
      Spans (moreTexts closing (xs.map text) ++ rest) (ts ++ [.mark closing]) rest ∧
      (Fits depth rest → Fits (depth + 1) (moreTexts closing (xs.map text) ++ rest)) := by
  induction xs with
  | nil =>
      obtain ⟨hmark, hdot⟩ := mark_of_closing hclosing
      refine ⟨[], .nil, .mark hmark hdot rest, (fits_close ?_).2⟩
      exact hclosing.imp_right .inl
  | cons x xs ih =>
      obtain ⟨hx, hxs⟩ := List.forall_mem_cons.1 hxs
      obtain ⟨us, hus, hspan', hfits'⟩ := ih hxs
      obtain ⟨ts, hts, hspan, hfits⟩ := hx _ (ends_moreTexts hclosing (xs.map text) rest)
      refine ⟨.mark ',' :: ts ++ us, .cons hts hus, ?_, fun h => ?_⟩
      · simp only [List.map_cons, moreTexts, List.cons_append, List.append_assoc]
        exact (Spans.mark (by decide) (by decide) _).append (hspan.append hspan')
      · simp only [List.map_cons, moreTexts, List.cons_append, List.append_assoc]
        exact (fits_cons (by decide) (depth + 1) _).2 (hfits (hfits' h))

/-- A bracketed list of texts that spell its entries. -/
theorem listedTexts_spells {opening : Char} (hopening : opening = '[' ∨ opening = '{')
    (hclosing : closing = ']' ∨ closing = '}') (hdepth : depth < maxNesting)
    (hxs : ∀ x ∈ xs, Spells (depth + 1) (text x) (P · (value x))) :
    Spells depth (opening :: listedTexts closing (xs.map text)) fun ts =>
      ∃ us, ts = .mark opening :: us ++ [.mark closing] ∧ Entries P us (xs.map value) := by
  intro rest hrest
  have hmark : opening ∈ marks ∧ opening ≠ '.' := by
    rcases hopening with rfl | rfl <;> decide
  have hopen {cs : List Char} (h : Fits (depth + 1) cs) : Fits depth (opening :: cs) :=
    (fits_open (hopening.imp_right .inl)).2 ⟨hdepth, h⟩
  cases xs with
  | nil =>
      obtain ⟨hmark', hdot'⟩ := mark_of_closing hclosing
      refine ⟨_, ⟨[], rfl, .exact .nil⟩, ?_, fun h => hopen ?_⟩
      · exact (Spans.mark hmark.1 hmark.2 _).append (.mark hmark' hdot' rest)
      · exact (fits_close (hclosing.imp_right .inl)).2 h
  | cons x xs =>
      obtain ⟨hx, hxs⟩ := List.forall_mem_cons.1 hxs
      obtain ⟨us, hus, hspan', hfits'⟩ := moreTexts_spells hclosing hxs rest
      obtain ⟨ts, hts, hspan, hfits⟩ := hx _ (ends_moreTexts hclosing (xs.map text) rest)
      refine ⟨_, ⟨ts ++ us, rfl, .exact (.cons hts hus)⟩, ?_, fun h => hopen ?_⟩
      · simp only [List.map_cons, listedTexts, List.cons_append, List.append_assoc]
        exact (Spans.mark hmark.1 hmark.2 _).append (hspan.append hspan')
      · have hall : Fits (depth + 1) (text x ++ (moreTexts closing (xs.map text) ++ rest)) :=
          hfits (hfits' h)
        rwa [← List.append_assoc] at hall

end Lists

section Documents

theorem compactItems_eq (items : List Node) :
    Node.compactItems items = moreTexts ']' (items.map Node.compact) := by
  induction items with
  | nil => rfl
  | cons item rest ih => rw [Node.compactItems, ih, List.map_cons, moreTexts]

/-- The text of an entry. -/
def entryText (entry : String × Node) : List Char :=
  Json.quote entry.1.toList ++ ':' :: entry.2.compact

theorem compactEntries_eq (es : List (String × Node)) :
    Node.compactEntries es = moreTexts '}' (es.map entryText) := by
  induction es with
  | nil => rfl
  | cons entry rest ih =>
      simp only [Node.compactEntries, ih, List.map_cons, moreTexts, entryText, List.cons_append,
        List.append_assoc]

theorem compact_list (items : List Node) :
    (Node.list items).compact = '[' :: listedTexts ']' (items.map Node.compact) := by
  cases items with
  | nil => rfl
  | cons item rest =>
      rw [Node.compact, compactItems_eq, List.map_cons, listedTexts, List.cons_append]

theorem compact_map (es : List (String × Node)) :
    (Node.map es).compact = '{' :: listedTexts '}' (es.map entryText) := by
  cases es with
  | nil => rfl
  | cons entry rest =>
      simp only [Node.compact, compactEntries_eq, List.map_cons, listedTexts, entryText,
        List.cons_append, List.append_assoc]

theorem elementsOf_eq (items : List Node) :
    Expr.elementsOf items = items.map fun item => .item (Expr.ofNode item) := by
  induction items with
  | nil => rfl
  | cons item rest ih => rw [Expr.elementsOf, ih, List.map_cons]

theorem propertiesOf_eq (es : List (String × Node)) :
    Expr.propertiesOf es = es.map fun entry => .entry entry.1 (Expr.ofNode entry.2) := by
  induction es with
  | nil => rfl
  | cons entry rest ih => rw [Expr.propertiesOf, ih, List.map_cons]

theorem derives_of_primary {ts : List Token} {e : Expr} (h : Primary Derives ts e) :
    Derives ts e := by
  have hsum : Sum Derives (ts ++ [] ++ []) e := .mk (.mk h .nil) .nil
  rw [List.append_nil, List.append_nil] at hsum
  exact .expression hsum

theorem Spells.imp {depth : Nat} {cs : List Char} {P Q : List Token → Prop}
    (h : Spells depth cs P) (hPQ : ∀ {ts}, P ts → Q ts) : Spells depth cs Q := by
  intro rest hrest
  obtain ⟨ts, hts, hspan⟩ := h rest hrest
  exact ⟨ts, hPQ hts, hspan⟩

/-- A key, a colon and the text of a value. -/
theorem entryText_spells {depth : Nat} {key : String} {value : Node} {e : Expr}
    (hkey : HasShortEscapes key) (hvalue : Spells depth value.compact (Derives · e)) :
    Spells depth (entryText (key, value)) (PropertyOf Derives · (.entry key e)) := by
  intro rest hrest
  obtain ⟨ts, hts, hspan, hfits⟩ := hvalue rest hrest
  have hread := read?_quote hkey (':' :: (value.compact ++ rest))
  refine ⟨_, .entry .string hts, ?_, fun h => ?_⟩
  · simp only [entryText, List.append_assoc, List.cons_append]
    exact .cons hread ((Spans.mark (by decide) (by decide) _).append hspan)
  · simp only [entryText, List.append_assoc, List.cons_append]
    refine (fits_token hread nofun depth).2 ((fits_cons (by decide) depth _).2 (hfits h))

/-- **The text of a document spells its tree of literals**, inside any brackets that leave room for
its own. -/
theorem compact_spells {n : Node} (h : n.Throughout Node.IsSpellable) :
    ∀ depth, depth + n.nesting ≤ maxNesting →
      Spells depth n.compact (Derives · (Expr.ofNode n)) := by
  -- The brackets around the text are generalised: what is inside a map or list has one more.
  induction n using Node.induction with
  | map es ih =>
      intro depth hdepth
      obtain ⟨hkeys, hvalues⟩ := Node.throughout_map.1 h
      rw [Node.nesting] at hdepth
      have hnested := Node.nestingOfEntries_le.1 (Nat.le_refl (Node.nestingOfEntries es))
      have hentries : ∀ entry ∈ es, Spells (depth + 1) (entryText entry)
          (PropertyOf Derives · (.entry entry.1 (Expr.ofNode entry.2))) := by
        intro entry hentry
        have hroom := hnested entry hentry
        refine entryText_spells (hkeys _ (List.mem_map_of_mem hentry)) ?_
        exact ih entry hentry (hvalues entry hentry) (depth + 1) (by omega)
      rw [compact_map, Expr.ofNode, propertiesOf_eq]
      refine (listedTexts_spells (.inr rfl) (.inr rfl) (by omega) hentries).imp ?_
      rintro ts ⟨us, rfl, hus⟩
      exact derives_of_primary (.object hus)
  | list items ih =>
      intro depth hdepth
      obtain ⟨-, hvalues⟩ := Node.throughout_list.1 h
      rw [Node.nesting] at hdepth
      have hnested := Node.nestingOfItems_le.1 (Nat.le_refl (Node.nestingOfItems items))
      have hitems : ∀ item ∈ items, Spells (depth + 1) item.compact
          (ElementOf Derives · (.item (Expr.ofNode item))) := by
        intro item hitem
        have hroom := hnested item hitem
        exact (ih item hitem (hvalues item hitem) (depth + 1) (by omega)).imp .item
      rw [compact_list, Expr.ofNode, elementsOf_eq]
      refine (listedTexts_spells (.inl rfl) (.inl rfl) (by omega) hitems).imp ?_
      rintro ts ⟨us, rfl, hus⟩
      exact derives_of_primary (.array hus)
  | null =>
      intro depth _
      exact spells_token (derives_of_primary (.null (.inl rfl))) nofun
        (read?_word (by decide) (by decide))
  | bool b =>
      intro depth _
      cases b with
      | true =>
          exact spells_token (derives_of_primary .true) nofun
            (read?_word (by decide) (by decide))
      | false =>
          exact spells_token (derives_of_primary .false) nofun
            (read?_word (by decide) (by decide))
  | number x =>
      intro depth _
      have hx : Node.IsSpellable (.number x) := h.self
      cases x with
      | float x => exact hx.elim
      | int n =>
          have hinteger : IsInteger (integerNumeral n) :=
            ⟨rfl, rfl, (wholeValue_integerNumeral n).symm ▸ hx⟩
          have hderives := derives_of_primary (.integer hinteger)
          rw [wholeValue_integerNumeral] at hderives
          exact spells_token hderives nofun (read?_integer n)
  | string text =>
      intro depth _
      have htext : HasShortEscapes text := h.self
      exact spells_token (derives_of_primary .string) nofun fun {rest} _ => read?_quote htext rest

/-- **JSON text is parsed as the literals that it spells.** -/
theorem parse_toJson {n : Node} (h : n.Throughout Node.IsSpellable)
    (hdepth : n.nesting ≤ maxNesting) : Expr.parse n.toJson = .ok (Expr.ofNode n) := by
  obtain ⟨ts, hts, hspan, hfits⟩ := compact_spells h 0 (by omega) [] ends_nil
  have hlexes := hspan [] (lexes_nil.2 rfl)
  have hroom := hfits rfl
  rw [List.append_nil, ← String.toList_ofList (l := n.compact)] at hlexes hroom
  rw [List.append_nil] at hlexes
  exact parse_of_lexes hlexes hts hroom

end Documents

end Grammar

end SchemaWeave
