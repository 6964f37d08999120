import SchemaWeave.Proofs.Grammar.Nesting
import SchemaWeave.Proofs.Grammar.Soundness

/-!
The contract of a parser that reads off what the grammar derives: on a text whose tokens begin with
a derivation and go on with what may follow it, the parser takes exactly the derivation. The scan of
brackets has to allow the text, so that the budget of the descent suffices, and it allows the rest
afterwards. The contract goes up through bracketed lists and their entries here.
-/

namespace SchemaWeave.Grammar

open SchemaWeave.Expr (Parser Outcome padded char moreItems commaSeparated bracketed element keyed
  property primary postfixed sum expression skipBlanks stripDots name? string? key? numeral? ofName
  Numeral maxNesting)

variable {α : Type}

/-- The marks that may follow an expression. -/
def closers : List Token := [')', ']', '}', ','].map .mark

/-- What may follow an expression. -/
def Stops (us : List Token) : Prop := ∀ t ∈ us.head?, t ∈ closers

/-- What may follow an operand. -/
def StopsOperand (us : List Token) : Prop := ∀ t ∈ us.head?, t ∈ .mark '+' :: closers

/-- The parser takes a derivation off the beginning of a text. -/
def Reads (depth : Nat) (p : Parser α) (P : List Token → α → Prop)
    (Follow : List Token → Prop) : Prop :=
  ∀ {ts x}, P ts x → ∀ {cs us}, Lexes cs (ts ++ us) → Follow us → Fits depth cs →
    ∃ rest, p (skipBlanks cs) = .done x rest ∧ Lexes rest us ∧ Fits depth rest

/-- The parser does not match a text that begins with one of these tokens. -/
def Refuses (p : Parser α) (ts : List Token) : Prop :=
  ∀ {cs us t}, t ∈ ts → Lexes cs (t :: us) → ∃ rest, p (skipBlanks cs) = .mismatch rest

section Beginnings

variable {depth : Nat} {cs : List Char} {us : List Token}

theorem lexes_mark {c : Char} (h : Lexes cs (.mark c :: us)) :
    ∃ mid, skipBlanks cs = c :: mid ∧ Lexes mid us ∧ stripDots (skipBlanks cs) = none := by
  obtain ⟨mid, hread, hmid⟩ := lexes_cons.1 h
  obtain ⟨_, _, hcs, rfl, -, rfl, hdots⟩ := read?_inv hread
  exact ⟨_, hcs, hmid, hdots⟩

theorem lexes_token {t : Token} (h : Lexes cs (t :: us)) (hfits : Fits depth cs)
    (ht : ∀ c, t ≠ .mark c) :
    ∃ rest, Token.read? (skipBlanks cs) = some (t, rest) ∧ Lexes rest us ∧ Fits depth rest := by
  obtain ⟨rest, hread, hrest⟩ := lexes_cons.1 h
  refine ⟨rest, hread, hrest, ?_⟩
  exact (fits_token hread (fun c hc => absurd hc (ht c)) depth).1 (fits_skipBlanks.2 hfits)

theorem lexes_plain {c : Char} (hc : IsPlain c) (h : Lexes cs (.mark c :: us))
    (hfits : Fits depth cs) :
    ∃ mid, skipBlanks cs = c :: mid ∧ Lexes mid us ∧ Fits depth mid := by
  obtain ⟨mid, hcs, hmid, -⟩ := lexes_mark h
  rw [← fits_skipBlanks, hcs, fits_cons hc] at hfits
  exact ⟨mid, hcs, hmid, hfits⟩

theorem lexes_open {c : Char} (hc : c = '[' ∨ c = '{' ∨ c = '(') (h : Lexes cs (.mark c :: us))
    (hfits : Fits depth cs) :
    ∃ mid, skipBlanks cs = c :: mid ∧ Lexes mid us ∧ depth < maxNesting ∧
      Fits (depth + 1) mid := by
  obtain ⟨mid, hcs, hmid, -⟩ := lexes_mark h
  rw [← fits_skipBlanks, hcs, fits_open hc] at hfits
  exact ⟨mid, hcs, hmid, hfits⟩

theorem lexes_close {c : Char} (hc : c = ']' ∨ c = '}' ∨ c = ')') (h : Lexes cs (.mark c :: us))
    (hfits : Fits (depth + 1) cs) :
    ∃ mid, skipBlanks cs = c :: mid ∧ Lexes mid us ∧ Fits depth mid := by
  obtain ⟨mid, hcs, hmid, -⟩ := lexes_mark h
  rw [← fits_skipBlanks, hcs, fits_close hc] at hfits
  exact ⟨mid, hcs, hmid, hfits⟩

theorem lexes_ellipsis (h : Lexes cs (.ellipsis :: us)) :
    ∃ mid, skipBlanks cs = '.' :: '.' :: '.' :: mid ∧ Lexes mid us := by
  obtain ⟨mid, hread, hmid⟩ := lexes_cons.1 h
  obtain ⟨_, _, -, hcs⟩ := read?_inv hread
  exact ⟨mid, hcs, hmid⟩

theorem lexes_closer {t : Token} (ht : t ∈ closers) (h : Lexes cs (t :: us)) :
    ∃ c mid, t = .mark c ∧ skipBlanks cs = c :: mid ∧ Lexes mid us ∧
      stripDots (skipBlanks cs) = none ∧ c ∈ marks ∧ c ≠ '[' ∧ c ≠ '{' ∧ c ≠ '(' := by
  have hmark : ∃ c, t = .mark c ∧ c ∈ marks ∧ c ≠ '[' ∧ c ≠ '{' ∧ c ≠ '(' := by
    obtain ⟨c, hc, rfl⟩ := List.mem_map.1 ht
    simp only [List.mem_cons, List.not_mem_nil, or_false] at hc
    rcases hc with rfl | rfl | rfl | rfl <;> exact ⟨_, rfl, by decide⟩
  obtain ⟨c, rfl, hc⟩ := hmark
  obtain ⟨mid, hcs, hmid, hdots⟩ := lexes_mark h
  exact ⟨c, mid, rfl, hcs, hmid, hdots, hc⟩

end Beginnings

section Tokens

variable {nested : Parser Expr} {cs rest : List Char}

theorem primary_other {c : Char} (hc : c ≠ '[' ∧ c ≠ '{' ∧ c ≠ '(') (cs : List Char) :
    primary nested (c :: cs) =
      (Outcome.ofOption (c :: cs) (numeral? (c :: cs))).orElse fun () =>
      (Outcome.ofOption (c :: cs)
        ((string? (c :: cs)).map fun (s, rest) => (.literal (.string s), rest))).orElse
      fun () => (Outcome.ofOption (c :: cs) (name? (c :: cs))).map ofName := by
  obtain ⟨h₁, h₂, h₃⟩ := hc
  unfold primary
  split
  · rename_i heq
    exact absurd (List.cons.inj heq).1 h₁
  · rename_i heq
    exact absurd (List.cons.inj heq).1 h₂
  · rename_i heq
    exact absurd (List.cons.inj heq).1 h₃
  · rfl

theorem not_open_of_not_mark {c : Char} (hc : c ∉ marks) : c ≠ '[' ∧ c ≠ '{' ∧ c ≠ '(' := by
  refine ⟨?_, ?_, ?_⟩ <;> rintro rfl <;> exact hc (by decide)

theorem primary_at_numeral {n : Numeral} (h : Token.read? cs = some (.numeral n, rest)) :
    primary nested cs = .done (.literal n.toLiteral) rest := by
  obtain ⟨c, more, rfl, hc, hread⟩ := read?_inv h
  obtain ⟨hmark, -⟩ := class_of_numeral hc
  simp [primary_other (not_open_of_not_mark hmark), numeral?, hread, Outcome.ofOption,
    Outcome.orElse]

theorem primary_at_string {s : String} (h : Token.read? cs = some (.string s, rest)) :
    primary nested cs = .done (.literal (.string s)) rest := by
  obtain ⟨c, more, rfl, hc, hread⟩ := read?_inv h
  obtain ⟨hmark, hnumeral⟩ := class_of_quote hc
  simp [primary_other (not_open_of_not_mark hmark), numeral?, numeral_none hnumeral, hread,
    Outcome.ofOption, Outcome.orElse]

theorem primary_at_name {s : String} (h : Token.read? cs = some (.name s, rest)) :
    primary nested cs = .done (ofName s) rest := by
  obtain ⟨c, more, rfl, hc, hread⟩ := read?_inv h
  obtain ⟨hmark, hnumeral, hquote⟩ := class_of_name hc
  simp [primary_other (not_open_of_not_mark hmark), numeral?, numeral_none hnumeral,
    string?_none hquote, hread, Outcome.ofOption, Outcome.orElse, Outcome.map, Outcome.andThen]

theorem primary_at_other {c : Char} (hc : c ∈ marks) (hopen : c ≠ '[' ∧ c ≠ '{' ∧ c ≠ '(')
    (cs : List Char) : primary nested (c :: cs) = .mismatch (c :: cs) := by
  obtain ⟨hname, hdigit, hminus, hquote⟩ := class_of_mark c hc
  simp [primary_other hopen, numeral?, numeral_none ⟨hdigit, hminus⟩, string?_none hquote,
    name?_none hname, Outcome.ofOption, Outcome.orElse, Outcome.map, Outcome.andThen]

theorem key?_reads {t : Token} {key : String} (hkey : Key t key)
    (h : Token.read? cs = some (t, rest)) : key? cs = some (key, rest) := by
  rw [key?]
  cases hkey with
  | string =>
      obtain ⟨c, more, rfl, -, hread⟩ := read?_inv h
      rw [hread]
  | name =>
      obtain ⟨c, more, rfl, hc, hread⟩ := read?_inv h
      rw [string?_none (class_of_name hc).2.2, hread]
  | numeral =>
      obtain ⟨c, more, rfl, hc, hread⟩ := read?_inv h
      obtain ⟨-, hname, hquote⟩ := class_of_numeral hc
      rw [string?_none hquote, name?_none hname, hread]
      rfl

theorem key?_other {c : Char} (hc : c ∈ marks) (cs : List Char) : key? (c :: cs) = none := by
  obtain ⟨hname, hdigit, hminus, hquote⟩ := class_of_mark c hc
  simp [key?, string?_none hquote, name?_none hname, numeral_none ⟨hdigit, hminus⟩]

end Tokens

section Refusals

variable {nested : Parser Expr} {cs : List Char} {us : List Token} {t : Token}

theorem sum_refuses (nested : Parser Expr) : Refuses (sum nested) (.ellipsis :: closers) := by
  have hrefuse {c : Char} (hc : c ∈ marks) (hopen : c ≠ '[' ∧ c ≠ '{' ∧ c ≠ '(')
      (rest : List Char) : sum nested (c :: rest) = .mismatch (c :: rest) := by
    simp [sum, postfixed, primary_at_other hc hopen, Outcome.andThen]
  intro cs us t ht h
  rcases List.mem_cons.1 ht with rfl | ht
  · obtain ⟨mid, hcs, -⟩ := lexes_ellipsis h
    rw [hcs]
    exact ⟨_, hrefuse (by decide) (by decide) _⟩
  · obtain ⟨c, mid, -, hcs, -, -, hc, hopen⟩ := lexes_closer ht h
    rw [hcs]
    exact ⟨_, hrefuse hc hopen _⟩

theorem expression_refuses (depth : Nat) :
    Refuses (expression depth) (.ellipsis :: closers) := by
  cases depth with
  | zero => exact sum_refuses _
  | succ depth => exact sum_refuses _

theorem Refuses.padded {p : Parser α} {ts : List Token} (hp : Refuses p ts) (ht : t ∈ ts)
    (h : Lexes cs (t :: us)) : ∃ rest, padded p cs = .mismatch rest := by
  obtain ⟨rest, hrest⟩ := hp ht h
  exact ⟨rest, by simp [Expr.padded, hrest, Outcome.andThen]⟩

end Refusals

theorem Reads.padded {depth : Nat} {p : Parser α} {P : List Token → α → Prop}
    {Follow : List Token → Prop} (hp : Reads depth p P Follow) {ts us : List Token} {x : α}
    {cs : List Char} (hts : P ts x) (hcs : Lexes cs (ts ++ us)) (hfollow : Follow us)
    (hfits : Fits depth cs) :
    ∃ rest, padded p cs = .done x rest ∧ Lexes rest us ∧ Fits depth rest ∧
      skipBlanks rest = rest := by
  obtain ⟨rest, hread, hrest, hfits⟩ := hp hts hcs hfollow hfits
  refine ⟨skipBlanks rest, ?_, lexes_skipBlanks.2 hrest, fits_skipBlanks.2 hfits,
    skipBlanks_skipBlanks rest⟩
  simp [Expr.padded, hread, Outcome.andThen]

section Entries

variable {nested : Parser Expr} {E : List Token → Expr → Prop} {depth : Nat}

theorem element_reads (hnested : Reads depth nested E Stops)
    (hrefuses : Refuses nested (.ellipsis :: closers)) :
    Reads depth (element nested) (ElementOf E) Stops := by
  intro ts x hts cs us hcs hstops hfits
  rw [element, skipBlanks_skipBlanks]
  cases hts with
  | spread he =>
      obtain ⟨mid, hmid, hlexes⟩ := lexes_ellipsis hcs
      rw [← fits_skipBlanks, hmid, fits_dots] at hfits
      obtain ⟨rest, hread, hrest, hfits, -⟩ := hnested.padded he hlexes hstops hfits
      refine ⟨rest, ?_, hrest, hfits⟩
      simp [hmid, stripDots, hread, Outcome.map, Outcome.andThen]
  | item he =>
      obtain ⟨rest, hread, hrest, hfits, -⟩ := hnested.padded he (lexes_skipBlanks.2 hcs) hstops
        (fits_skipBlanks.2 hfits)
      have hdots : stripDots (skipBlanks cs) = none := by
        cases h : stripDots (skipBlanks cs) with
        | none => rfl
        | some more =>
            have hellipsis := read?_of_dots h
            cases hall : ts ++ us with
            | nil =>
                rw [hall, lexes_nil] at hcs
                rw [hcs] at h
                cases h
            | cons t vs =>
                -- no expression begins with an ellipsis
                rw [hall] at hcs
                obtain ⟨mid, ht, -⟩ := lexes_cons.1 hcs
                rw [hellipsis] at ht
                cases ht
                obtain ⟨rest', hmismatch⟩ :=
                  hrefuses.padded List.mem_cons_self (lexes_skipBlanks.2 hcs)
                rw [hread] at hmismatch
                cases hmismatch
      refine ⟨rest, ?_, hrest, hfits⟩
      simp [hdots, hread, Outcome.map, Outcome.andThen]

theorem element_refuses (hrefuses : Refuses nested (.ellipsis :: closers)) :
    Refuses (element nested) closers := by
  intro cs us t ht h
  obtain ⟨c, mid, -, hcs, -, hdots, -⟩ := lexes_closer ht h
  obtain ⟨rest, hrest⟩ := hrefuses.padded (List.mem_cons_of_mem _ ht) (lexes_skipBlanks.2 h)
  rw [element, skipBlanks_skipBlanks, hdots]
  exact ⟨rest, by simp [hrest, Outcome.map, Outcome.andThen]⟩

theorem property_reads (hnested : Reads depth nested E Stops) :
    Reads depth (property nested) (PropertyOf E) Stops := by
  intro ts x hts cs us hcs hstops hfits
  rw [property, skipBlanks_skipBlanks]
  cases hts with
  | spread he =>
      obtain ⟨mid, hmid, hlexes⟩ := lexes_ellipsis hcs
      rw [← fits_skipBlanks, hmid, fits_dots] at hfits
      obtain ⟨rest, hread, hrest, hfits, -⟩ := hnested.padded he hlexes hstops hfits
      refine ⟨rest, ?_, hrest, hfits⟩
      simp [hmid, stripDots, hread, Outcome.map, Outcome.andThen, Outcome.orElse]
  | @entry t key ts e hkey he =>
      have hkind : ∀ c, t ≠ .mark c := by
        rintro c rfl
        cases hkey
      obtain ⟨mid, hread, hmid, hfits⟩ := lexes_token hcs hfits hkind
      obtain ⟨mid', hcolon, hmid', hfits⟩ := lexes_plain (by decide) hmid hfits
      have hdots : stripDots (skipBlanks cs) = none := by
        cases h : stripDots (skipBlanks cs) with
        | none => rfl
        | some more =>
            rw [read?_of_dots h] at hread
            cases hread
            cases hkey
      obtain ⟨rest, hvalue, hrest, hfits, -⟩ := hnested.padded he hmid' hstops hfits
      refine ⟨rest, ?_, hrest, hfits⟩
      have hkeyed : padded (fun cs => Outcome.ofOption cs (key? cs)) (skipBlanks cs) =
          .done key (skipBlanks mid) := by
        simp [Expr.padded, key?_reads hkey hread, Outcome.ofOption, Outcome.andThen]
      have hchar : char ':' (skipBlanks mid) = .done () mid' := by
        rw [hcolon]
        rfl
      rw [hdots]
      simp [keyed, hkeyed, hchar, hvalue, Outcome.require, Outcome.map, Outcome.andThen]

theorem property_refuses : Refuses (property nested) closers := by
  intro cs us t ht h
  obtain ⟨c, mid, -, hcs, -, hdots, hc, -⟩ := lexes_closer ht h
  have hkeyed : padded (fun cs => Outcome.ofOption cs (key? cs)) (skipBlanks cs) =
      .mismatch (skipBlanks cs) := by
    simp [Expr.padded, hcs ▸ key?_other hc mid, Outcome.ofOption, Outcome.andThen]
  rw [property, skipBlanks_skipBlanks, hdots]
  refine ⟨skipBlanks cs, ?_⟩
  simp [keyed, hkeyed, Outcome.andThen]

end Entries

section Lists

variable {item : Parser α} {P : List Token → α → Prop} {depth : Nat} {closing : Char}

theorem mem_closers_of_closing (h : closing = ']' ∨ closing = '}' ∨ closing = ')') :
    .mark closing ∈ closers ∧ closing ≠ ',' := by
  rcases h with rfl | rfl | rfl <;> decide

/-- What follows the items of a bracketed list: its closing bracket, perhaps after a comma. -/
def Closes (closing : Char) (us : List Token) : Prop :=
  ∃ vs, us = .mark closing :: vs ∨ us = .mark ',' :: .mark closing :: vs

theorem Closes.head {us : List Token} (hclosing : .mark closing ∈ closers)
    (h : Closes closing us) : ∃ t vs, us = t :: vs ∧ t ∈ closers := by
  obtain ⟨vs, rfl | rfl⟩ := h
  · exact ⟨_, _, rfl, hclosing⟩
  · exact ⟨_, _, rfl, by decide⟩

theorem Closes.stops {us : List Token} (hclosing : .mark closing ∈ closers)
    (h : Closes closing us) : Stops us := by
  obtain ⟨t, vs, rfl, ht⟩ := h.head hclosing
  rintro u ⟨⟩
  exact ht

/-- A comma before the closing bracket begins no further item. -/
theorem Closes.refuses {us : List Token} {more : List Char}
    (hclosing : .mark closing ∈ closers ∧ closing ≠ ',') (h : Closes closing us)
    (hitem : Refuses item closers) (hcs : Lexes (',' :: more) us) :
    ∃ rest, Expr.padded item more = .mismatch rest := by
  obtain ⟨vs, rfl | rfl⟩ := h
  · obtain ⟨mid, hmid, -⟩ := lexes_mark hcs
    exact absurd (List.cons.inj hmid).1.symm hclosing.2
  · obtain ⟨mid, hmid, hlexes, -⟩ := lexes_mark hcs
    cases hmid
    exact hitem.padded hclosing.1 hlexes

theorem MoreItems.stops {ts us : List Token} {xs : List α} (h : MoreItems P ts xs)
    (hus : Stops us) : Stops (ts ++ us) := by
  cases h with
  | nil => exact hus
  | cons _ _ =>
      rintro u ⟨⟩
      decide

theorem moreItems_reads (hitem : Reads depth item P Stops) (hrefuses : Refuses item closers)
    (hclosing : .mark closing ∈ closers ∧ closing ≠ ',') {ts us : List Token} {xs : List α}
    (hts : MoreItems P ts xs) (hus : Closes closing us) {fuel : Nat} (hfuel : ts.length ≤ fuel)
    {cs : List Char} (hcs : Lexes cs (ts ++ us)) (hskip : skipBlanks cs = cs)
    (hfits : Fits depth cs) :
    ∃ rest, moreItems (padded item) fuel cs = .done xs rest ∧ Lexes rest us ∧ Fits depth rest := by
  induction hts generalizing fuel cs with
  | nil =>
      refine ⟨cs, ?_, hcs, hfits⟩
      by_cases hcomma : cs.head? = some ','
      · obtain ⟨more, rfl⟩ := List.head?_eq_some_iff.1 hcomma
        cases fuel with
        | zero => rfl
        | succ fuel =>
            obtain ⟨rest, hrest⟩ := hus.refuses hclosing hrefuses hcs
            simp [moreItems, hrest]
      · exact moreItems_other hcomma fuel
  | @cons ts us' x xs hx hxs ih =>
      simp only [List.cons_append, List.append_assoc, List.length_cons, List.length_append]
        at hcs hfuel
      have hpos : fuel ≠ 0 := by omega
      obtain ⟨fuel, rfl⟩ := Nat.exists_eq_add_one_of_ne_zero hpos
      obtain ⟨mid, hmid, hlexes, hfits⟩ := lexes_plain (by decide) hcs hfits
      rw [hskip] at hmid
      subst hmid
      obtain ⟨rest, hread, hrest, hfits, hskip⟩ :=
        hitem.padded hx hlexes (hxs.stops (hus.stops hclosing.1)) hfits
      have hmany : us'.length ≤ fuel := by omega
      obtain ⟨rest', hmore, hrest', hfits⟩ := ih hmany hrest hskip hfits
      refine ⟨rest', ?_, hrest', hfits⟩
      simp [moreItems, hread, hmore, Outcome.map, Outcome.andThen]

theorem commaSeparated_reads (hitem : Reads depth item P Stops) (hrefuses : Refuses item closers)
    (hclosing : .mark closing ∈ closers ∧ closing ≠ ',') {ts us : List Token} {xs : List α}
    (hts : Items P ts xs) (hus : Closes closing us) {cs : List Char} (hcs : Lexes cs (ts ++ us))
    (hfits : Fits depth cs) :
    ∃ rest, commaSeparated (padded item) cs = .done xs rest ∧ Lexes rest us ∧
      Fits depth rest := by
  cases hts with
  | nil =>
      obtain ⟨t, vs, rfl, ht⟩ := hus.head hclosing.1
      obtain ⟨rest, hrest⟩ := hrefuses.padded ht hcs
      refine ⟨cs, ?_, hcs, hfits⟩
      simp [commaSeparated, hrest]
  | @cons ts us' x xs hx hxs =>
      rw [List.append_assoc] at hcs
      obtain ⟨mid, hread, hmid, hfits, hskip⟩ :=
        hitem.padded hx hcs (hxs.stops (hus.stops hclosing.1)) hfits
      obtain ⟨rest, hmore, hrest, hfits⟩ :=
        moreItems_reads hitem hrefuses hclosing hxs hus hmid.length_left_le hmid hskip hfits
      refine ⟨rest, ?_, hrest, hfits⟩
      simp [commaSeparated, hread, hmore, Outcome.map, Outcome.andThen]

section Brackets

variable {cs mid rest : List Char} {xs : List α}

theorem bracketed_of_items (hread : commaSeparated (padded item) cs = .done xs mid)
    (hclosing : closing = ']' ∨ closing = '}' ∨ closing = ')')
    (hend : skipBlanks mid = closing :: rest) : bracketed item closing cs = .done xs rest := by
  rcases hclosing with rfl | rfl | rfl <;>
    simp [bracketed, hread, hend, char, Outcome.require, Outcome.map, Outcome.andThen]

theorem bracketed_of_comma {more : List Char}
    (hread : commaSeparated (padded item) cs = .done xs mid)
    (hcomma : skipBlanks mid = ',' :: more) (hend : skipBlanks more = closing :: rest) :
    bracketed item closing cs = .done xs rest := by
  simp [bracketed, hread, hcomma, hend, char, Outcome.require, Outcome.map, Outcome.andThen]

end Brackets

/-- A bracketed list is read from its opening bracket to its closing one. -/
theorem bracketed_reads (hitem : depth < maxNesting → Reads (depth + 1) item P Stops)
    (hrefuses : Refuses item closers) {opening : Char}
    (hopening : opening = '[' ∨ opening = '{' ∨ opening = '(')
    (hclosing : closing = ']' ∨ closing = '}' ∨ closing = ')') {ts us : List Token} {xs : List α}
    (hts : Entries P ts xs) {cs : List Char}
    (hcs : Lexes cs (.mark opening :: (ts ++ .mark closing :: us))) (hfits : Fits depth cs) :
    ∃ inner rest, skipBlanks cs = opening :: inner ∧ bracketed item closing inner = .done xs rest ∧
      Lexes rest us ∧ Fits depth rest := by
  have hcloser := mem_closers_of_closing hclosing
  obtain ⟨inner, hopen, hinner, hdepth, hfits⟩ := lexes_open hopening hcs hfits
  have hitem : Reads (depth + 1) item P Stops := hitem hdepth
  cases hts with
  | exact hts =>
      obtain ⟨mid, hread, hmid, hfits⟩ :=
        commaSeparated_reads hitem hrefuses hcloser hts ⟨us, .inl rfl⟩ hinner hfits
      obtain ⟨rest, hend, hrest, hfits⟩ := lexes_close hclosing hmid hfits
      exact ⟨inner, rest, hopen, bracketed_of_items hread hclosing hend, hrest, hfits⟩
  | @comma ts xs hts =>
      rw [List.append_assoc] at hinner
      obtain ⟨mid, hread, hmid, hfits⟩ :=
        commaSeparated_reads hitem hrefuses hcloser hts ⟨us, .inr rfl⟩ hinner hfits
      obtain ⟨more, hcomma, hmore, hfits⟩ := lexes_plain (by decide) hmid hfits
      obtain ⟨rest, hend, hrest, hfits⟩ := lexes_close hclosing hmore hfits
      exact ⟨inner, rest, hopen, bracketed_of_comma hread hcomma hend, hrest, hfits⟩

end Lists

end SchemaWeave.Grammar
