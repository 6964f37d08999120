import SchemaWeave.Proofs.Dictionary
import SchemaWeave.Types.Tag

/-!
Tags are read as they are written. The reader looks for entries anywhere, but from a name on it
follows one entry to its closing quote, whatever the text of the entry looks like
(`Tag.entries_entryText`); between entries it finds nothing. So the entries of a row are read one
after the other (`Tag.IsRow.entries_append`). Of the blanks and backticks around a row some are
trimmed off, the row itself never (`Tag.Padded.dropWhile`), and in the others nothing is found.
-/

namespace SchemaWeave

namespace Tag

/-! ### Rows of entries -/

/-- A name of ASCII letters, digits, underscores and dashes, and a text without a double quote. -/
structure IsEntry (pair : String × String) : Prop where
  name_ne_nil : pair.1.toList ≠ []
  name_chars : ∀ c ∈ pair.1.toList, c.isAlphanum = true ∨ c = '_' ∨ c = '-'
  no_quote : '"' ∉ pair.2.toList

instance (pair : String × String) : Decidable (IsEntry pair) :=
  decidable_of_iff
    (pair.1.toList ≠ [] ∧
      (pair.1.toList.all fun c => c.isAlphanum || c == '_' || c == '-') = true ∧
      '"' ∉ pair.2.toList)
    ⟨fun h => ⟨h.1, by simpa [or_assoc] using h.2.1, h.2.2⟩,
      fun h => ⟨h.name_ne_nil, by simpa [or_assoc] using h.name_chars, h.no_quote⟩⟩

def entryText (pair : String × String) : List Char :=
  pair.1.toList ++ ':' :: '"' :: (pair.2.toList ++ ['"'])

/-- The texts of a row: its entries, with one or more spaces between them. -/
inductive IsRow : List (String × String) → List Char → Prop
  | nil : IsRow [] []
  | single {pair : String × String} (hpair : IsEntry pair) : IsRow [pair] (entryText pair)
  | cons {pair next : String × String} {rest : List (String × String)} {cs : List Char}
      (hpair : IsEntry pair) (spaces : Nat) (hrest : IsRow (next :: rest) cs) :
      IsRow (pair :: next :: rest) (entryText pair ++ (List.replicate (spaces + 1) ' ' ++ cs))

/-- Blanks and backticks. -/
def isPadding (c : Char) : Bool := Text.isBlank c || c == '\x60'

/-- A row with blanks and backticks around it, any number and in any order. -/
inductive Padded (row : List Char) : List Char → Prop
  | mk {before after : List Char} (hbefore : ∀ c ∈ before, isPadding c = true)
      (hafter : ∀ c ∈ after, isPadding c = true) : Padded row (before ++ row ++ after)

/-- The texts of a tag: a row with padding around it. -/
def IsWritten (pairs : List (String × String)) (cs : List Char) : Prop :=
  ∃ row, IsRow pairs row ∧ Padded row cs

variable {c : Char} {cs row : List Char} {pair : String × String} {pairs : List (String × String)}

theorem isAlphanum_eq (c : Char) :
    c.isAlphanum = (decide ('A' ≤ c ∧ c ≤ 'Z') || (decide ('a' ≤ c) && decide (c ≤ 'z')) ||
      (decide ('0' ≤ c) && decide (c ≤ '9'))) :=
  rfl

theorem isNameChar_of_ascii (h : c.isAlphanum = true ∨ c = '_' ∨ c = '-') :
    isNameChar c = true := by
  rcases h with h | rfl | rfl
  · rw [isAlphanum_eq, Bool.decide_and, Bool.or_comm (decide ('A' ≤ c) && _)] at h
    rw [isNameChar, h]
    rfl
  · rfl
  · rfl

theorem toNat_of_isNameChar (h : isNameChar c = true) :
    (97 ≤ c.toNat ∧ c.toNat ≤ 122) ∨ (65 ≤ c.toNat ∧ c.toNat ≤ 90) ∨
      (48 ≤ c.toNat ∧ c.toNat ≤ 57) ∨ c.toNat = 95 ∨ c.toNat = 45 := by
  simp only [isNameChar, Bool.or_eq_true, Bool.and_eq_true, decide_eq_true_eq, beq_iff_eq] at h
  rcases h with (((h | h) | h) | rfl) | rfl
  · exact .inl h
  · exact .inr (.inl h)
  · exact .inr (.inr (.inl h))
  · decide
  · decide

theorem not_isBlank_of_isNameChar (h : isNameChar c = true) : Text.isBlank c = false := by
  have hn := toNat_of_isNameChar h
  simp only [Text.isBlank, Bool.or_eq_false_iff, Bool.and_eq_false_iff, decide_eq_false_iff_not,
    beq_eq_false_iff_ne]
  omega

theorem not_isNameChar_of_isPadding (h : isPadding c = true) : isNameChar c = false := by
  rw [isPadding, Bool.or_eq_true, beq_iff_eq] at h
  rcases h with h | rfl
  · exact Bool.eq_false_iff.2 fun hname => by simp [not_isBlank_of_isNameChar hname] at h
  · rfl

theorem IsEntry.isNameChar (h : IsEntry pair) : ∀ c ∈ pair.1.toList, isNameChar c = true :=
  fun c hc => isNameChar_of_ascii (h.name_chars c hc)

/-! ### Reading a row -/

theorem entries_name (name rest : List Char) (h : ∀ c ∈ cs, isNameChar c = true) :
    entries (.inName name) (cs ++ rest) = entries (.inName (name ++ cs)) rest := by
  induction cs generalizing name with
  | nil => rw [List.append_nil, List.nil_append]
  | cons c cs ih =>
      obtain ⟨hc, hcs⟩ := List.forall_mem_cons.1 h
      rw [List.cons_append, entries]
      simp only [Place.next, hc, if_true, Option.toList_none, List.nil_append]
      rw [ih _ hcs, List.append_assoc, List.singleton_append]

theorem entries_text (name text rest : List Char) (h : '"' ∉ cs) :
    entries (.inText name text) (cs ++ '"' :: rest) =
      (String.ofList name, String.ofList (text ++ cs)) :: entries (.inName []) rest := by
  induction cs generalizing text with
  | nil => simp [entries, Place.next]
  | cons c cs ih =>
      have hc : c ≠ '"' := fun heq => h (heq ▸ List.mem_cons_self)
      rw [List.cons_append, entries]
      simp only [Place.next, hc, if_false, Option.toList_none, List.nil_append]
      rw [ih _ fun hmem => h (List.mem_cons_of_mem _ hmem), List.append_assoc,
        List.singleton_append]

theorem entries_padding (h : ∀ c ∈ cs, isPadding c = true) (rest : List Char) :
    entries (.inName []) (cs ++ rest) = entries (.inName []) rest := by
  induction cs with
  | nil => rfl
  | cons c cs ih =>
      obtain ⟨hc, hcs⟩ := List.forall_mem_cons.1 h
      rw [List.cons_append, entries]
      simp [Place.next, not_isNameChar_of_isPadding hc, ih hcs]

/-- An entry is read to its closing quote, and nothing else is found in it. -/
theorem entries_entryText (h : IsEntry pair) (rest : List Char) :
    entries (.inName []) (entryText pair ++ rest) = pair :: entries (.inName []) rest := by
  have hcolon : Place.next ':' (.inName pair.1.toList) = (.afterColon pair.1.toList, none) := by
    simp [Place.next, isNameChar, h.name_ne_nil]
  rw [entryText, List.append_assoc, entries_name [] _ h.isNameChar, List.nil_append,
    List.cons_append, entries, hcolon]
  change entries (.inText pair.1.toList []) (pair.2.toList ++ ['"'] ++ rest) = _
  rw [List.append_assoc, List.singleton_append, entries_text _ _ _ h.no_quote, List.nil_append,
    String.ofList_toList, String.ofList_toList]

/-- The entries of a row are read one after the other. -/
theorem IsRow.entries_append (h : IsRow pairs cs) (rest : List Char) :
    entries (.inName []) (cs ++ rest) = pairs ++ entries (.inName []) rest := by
  induction h with
  | nil => rfl
  | single hpair => exact entries_entryText hpair rest
  | cons hpair spaces _ ih =>
      have hspaces : ∀ c ∈ List.replicate (spaces + 1) ' ', isPadding c = true := by
        intro c hc
        rw [List.eq_of_mem_replicate hc]
        rfl
      rw [List.append_assoc, List.append_assoc, entries_entryText hpair, entries_padding hspaces,
        ih]
      rfl

theorem Padded.entries_eq (h : Padded row cs) (hrow : IsRow pairs row) :
    entries (.inName []) cs = pairs := by
  obtain @⟨before, after, hbefore, hafter⟩ := h
  have hnone : entries (.inName []) after = [] := by
    simpa [entries] using entries_padding hafter []
  rw [List.append_assoc, entries_padding hbefore, hrow.entries_append, hnone, List.append_nil]

/-! ### Trimming a row -/

/-- An entry begins with its name and ends with a quote. -/
theorem ends_entryText (h : IsEntry pair) :
    ∃ c cs, entryText pair = c :: (cs ++ ['"']) ∧ isNameChar c = true := by
  obtain ⟨c, others, hname⟩ := List.exists_cons_of_ne_nil h.name_ne_nil
  refine ⟨c, others ++ ':' :: '"' :: pair.2.toList, ?_, ?_⟩
  · rw [entryText, hname]
    simp
  · exact h.isNameChar c (hname ▸ List.mem_cons_self)

theorem IsRow.ends (h : IsRow pairs cs) (hpairs : pairs ≠ []) :
    ∃ c rest, cs = c :: (rest ++ ['"']) ∧ isNameChar c = true := by
  induction h with
  | nil => exact absurd rfl hpairs
  | single hpair => exact ends_entryText hpair
  | cons hpair spaces _ ih =>
      obtain ⟨c, cs, hfirst, hc⟩ := ends_entryText hpair
      obtain ⟨d, rest, hrest, -⟩ := ih (List.cons_ne_nil _ _)
      refine ⟨c, cs ++ '"' :: (List.replicate (spaces + 1) ' ' ++ d :: rest), ?_, hc⟩
      rw [hfirst, hrest]
      simp

/-- A row keeps its ends where neither names nor quotes are dropped. -/
theorem IsRow.keeps_ends {p : Char → Bool} (h : IsRow pairs cs)
    (hname : ∀ c, isNameChar c = true → p c = false) (hquote : p '"' = false) :
    (∀ c ∈ cs.head?, p c = false) ∧ ∀ c ∈ cs.getLast?, p c = false := by
  by_cases hpairs : pairs = []
  · subst hpairs
    cases h
    exact ⟨nofun, nofun⟩
  · obtain ⟨c, rest, rfl, hc⟩ := h.ends hpairs
    constructor
    · rintro _ ⟨⟩
      exact hname c hc
    · rw [← List.cons_append, List.getLast?_concat]
      rintro _ ⟨⟩
      exact hquote

theorem Padded.dropWhile {p : Char → Bool} (h : Padded row cs)
    (hhead : ∀ c ∈ row.head?, p c = false) : Padded row (cs.dropWhile p) := by
  obtain @⟨before, after, hbefore, hafter⟩ := h
  induction before with
  | nil =>
      cases row with
      | nil =>
          -- nothing stops the dropping before it comes to the padding behind
          exact .mk hbefore fun c hc => hafter c ((List.dropWhile_suffix p).mem hc)
      | cons c row =>
          have hc : p c = false := hhead c rfl
          rw [List.nil_append, List.cons_append, List.dropWhile_cons_of_neg (by simp [hc])]
          exact .mk hbefore hafter
  | cons c before ih =>
      by_cases hc : p c = true
      · rw [List.cons_append, List.cons_append, List.dropWhile_cons_of_pos hc]
        exact ih (List.forall_mem_cons.1 hbefore).2
      · rw [List.cons_append, List.cons_append, List.dropWhile_cons_of_neg hc]
        exact .mk hbefore hafter

theorem Padded.reverse (h : Padded row cs) : Padded row.reverse cs.reverse := by
  obtain ⟨hbefore, hafter⟩ := h
  rw [List.reverse_append, List.reverse_append, ← List.append_assoc]
  exact .mk (fun c hc => hafter c (List.mem_reverse.1 hc))
    fun c hc => hbefore c (List.mem_reverse.1 hc)

/-- Trimming leaves a row as it is where neither names nor quotes are dropped. -/
theorem Padded.trim {p : Char → Bool} (h : Padded row cs) (hrow : IsRow pairs row)
    (hname : ∀ c, isNameChar c = true → p c = false) (hquote : p '"' = false) :
    Padded row ((cs.dropWhile p).reverse.dropWhile p).reverse := by
  obtain ⟨hhead, hlast⟩ := hrow.keeps_ends hname hquote
  have hback : Padded row.reverse ((cs.dropWhile p).reverse.dropWhile p) :=
    (h.dropWhile hhead).reverse.dropWhile (by rwa [List.head?_reverse])
  simpa using hback.reverse

/-- What is left of a written tag is its row, with some of the padding. -/
theorem Padded.dropBackticks_trim (h : Padded row cs) (hrow : IsRow pairs row) :
    Padded row (dropBackticks (Text.trim cs)) := by
  have htrim : Padded row (Text.trim cs) :=
    h.trim hrow (fun c => not_isBlank_of_isNameChar) (by decide)
  refine htrim.trim hrow (fun c hc => beq_eq_false_iff_ne.2 ?_) (by decide)
  rintro rfl
  cases hc

/-- **Tags are read as they are written**: the table of a written tag has one entry for each name
that is written, with the text of the last such entry, and no other entry. -/
theorem parse_written {text : String} (h : IsWritten pairs text.toList) :
    (parse text).Rises ∧ ∀ name value,
      (Dictionary.get? name (parse text) = some value ↔ (name, value) ∈ parse text) ∧
      ((name, value) ∈ parse text ↔
        ∃ earlier later, pairs = earlier ++ (name, value) :: later ∧
          name ∉ later.map Prod.fst) := by
  obtain ⟨row, hrow, hpadded⟩ := h
  have hparse : parse text = Dictionary.ofPairs pairs := by
    rw [parse, (hpadded.dropBackticks_trim hrow).entries_eq hrow]
  have hrises : (parse text).Rises := hparse ▸ Dictionary.rises_ofPairs pairs
  have hget (name value : String) :
      Dictionary.get? name (parse text) = some value ↔ (name, value) ∈ parse text :=
    Dictionary.get?_eq_some_iff hrises
  refine ⟨hrises, fun name value => ⟨hget name value, ?_⟩⟩
  rw [← hget, hparse, Dictionary.get?_ofPairs, Dictionary.get?_reverse_eq_some_iff]

/-- A name that is written twice, an empty text, and a text with colons, backticks and what looks
like the beginning of other entries. -/
theorem parse_written_lookalikes :
    let pairs := [("json", "form:1 `x` json:"), ("a-b_1", ""), ("json", "id,omitempty")]
    let text := "\n`json:\"form:1 `x` json:\"   a-b_1:\"\" json:\"id,omitempty\"`\t "
    IsWritten pairs text.toList ∧ ("json", "id,omitempty") ∈ parse text ∧
      ("a-b_1", "") ∈ parse text ∧ ∀ value, ("form", value) ∉ parse text := by
  intro pairs text
  let row := entryText ("json", "form:1 `x` json:") ++ (List.replicate 3 ' ' ++
    (entryText ("a-b_1", "") ++ (List.replicate 1 ' ' ++ entryText ("json", "id,omitempty"))))
  have hrow : IsRow pairs row :=
    .cons (by decide) 2 (.cons (by decide) 0 (.single (by decide)))
  have hbefore : ∀ c ∈ ['\n', '\x60'], isPadding c = true := by simp [isPadding, Text.isBlank]
  have hafter : ∀ c ∈ ['\x60', '\t', ' '], isPadding c = true := by
    simp [isPadding, Text.isBlank]
  have htext : ['\n', '\x60'] ++ row ++ ['\x60', '\t', ' '] = text.toList := by decide
  have hwritten : IsWritten pairs text.toList := ⟨row, hrow, htext ▸ .mk hbefore hafter⟩
  obtain ⟨-, hparse⟩ := parse_written hwritten
  have hjson : ("json", "id,omitempty") ∈ parse text :=
    (hparse "json" "id,omitempty").2.2 ⟨pairs.take 2, [], rfl, List.not_mem_nil⟩
  have hdashed : ("a-b_1", "") ∈ parse text :=
    (hparse "a-b_1" "").2.2 ⟨pairs.take 1, pairs.drop 2, rfl, by decide⟩
  refine ⟨hwritten, hjson, hdashed, fun value hvalue => ?_⟩
  obtain ⟨earlier, later, hpairs, -⟩ := (hparse _ _).2.1 hvalue
  have hmem : ("form", value) ∈ pairs := hpairs ▸ by simp
  simp [pairs] at hmem

end Tag

end SchemaWeave
