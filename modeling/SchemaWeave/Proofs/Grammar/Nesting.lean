import SchemaWeave.Proofs.Grammar.Lexing

/-!
How deep brackets nest, and the scan that refuses a text before the descent. The scan knows strings
by their quotes and backslashes alone; over the tokens of a text it sees the same strings as the
grammar, so every token but a bracket leaves the depth as it is.
-/

namespace SchemaWeave.Grammar

open SchemaWeave.Expr (isNameChar isBlank skipBlanks InString firstTooDeep maxNesting Numeral)

/-- Where a reader of brackets stands: how many are open, and inside a string which. -/
structure Nesting where
  unclosed : Nat
  inside : Option InString

/-- One more character. A closing bracket closes one that is open, if any is. -/
def Nesting.next (n : Nesting) (c : Char) : Nesting :=
  match n.inside with
  | some s => { n with inside := s.next c }
  | none =>
    if c = '"' ∨ c = '\'' then { n with inside := some ⟨c, false⟩ }
    else if c = '[' ∨ c = '{' ∨ c = '(' then { n with unclosed := n.unclosed + 1 }
    else if c = ']' ∨ c = '}' ∨ c = ')' then { n with unclosed := n.unclosed - 1 }
    else n

/-- The brackets outside strings that are open at the end of a text. -/
def unclosed (cs : List Char) : Nat := (cs.foldl Nesting.next ⟨0, none⟩).unclosed

/-- The scan refuses a text when one of its beginnings leaves too many brackets open. -/
theorem firstTooDeep_eq_none {budget depth : Nat} {inside : Option InString} {cs : List Char}
    (hdepth : depth ≤ budget) :
    firstTooDeep budget depth inside cs = none ↔
      ∀ p, p <+: cs → (p.foldl Nesting.next ⟨depth, inside⟩).unclosed ≤ budget := by
  induction cs generalizing depth inside with
  | nil =>
      simp only [firstTooDeep, List.prefix_nil, forall_eq, List.foldl_nil, true_iff]
      exact hdepth
  | cons c rest ih =>
      have hbegins (n : Nesting) (hn : n.unclosed ≤ budget) :
          (∀ p, p <+: c :: rest → (p.foldl Nesting.next n).unclosed ≤ budget) ↔
            ∀ p, p <+: rest → (p.foldl Nesting.next (n.next c)).unclosed ≤ budget := by
        constructor
        · intro h p hp
          exact h (c :: p) (List.cons_prefix_cons.2 ⟨rfl, hp⟩)
        · intro h p hp
          rcases List.prefix_cons_iff.1 hp with rfl | ⟨q, rfl, hq⟩
          · exact hn
          · exact h q hq
      rw [hbegins _ hdepth]
      cases inside with
      | some s => exact ih hdepth
      | none =>
          simp only [firstTooDeep, Nesting.next]
          split
          · exact ih hdepth
          · split
            · split
              · -- the bracket itself is the beginning that opens too many
                simp only [reduceCtorEq, false_iff]
                intro h
                have hself := h [] List.nil_prefix
                simp only [List.foldl_nil] at hself
                omega
              · exact ih (by omega)
            · split
              · exact ih (by omega)
              · exact ih hdepth

theorem firstTooDeep_iff {cs : List Char} :
    firstTooDeep maxNesting 0 none cs = none ↔ ∀ p, p <+: cs → unclosed p ≤ maxNesting :=
  firstTooDeep_eq_none (Nat.zero_le _)

/-- The brackets of the text nest within the limit inside so many others. -/
def Fits (depth : Nat) (cs : List Char) : Prop := firstTooDeep maxNesting depth none cs = none

/-- The characters that the scan of brackets passes over. -/
def IsPlain (c : Char) : Prop := c ∉ ['"', '\'', '[', '{', '(', ']', '}', ')']

instance (c : Char) : Decidable (IsPlain c) := inferInstanceAs (Decidable (_ ∉ _))

theorem fits_cons {c : Char} (hc : IsPlain c) (depth : Nat) (cs : List Char) :
    Fits depth (c :: cs) ↔ Fits depth cs := by
  simp only [IsPlain, List.mem_cons, List.not_mem_nil, or_false, not_or] at hc
  simp [Fits, firstTooDeep, hc]

theorem fits_append {plain : List Char} (h : ∀ c ∈ plain, IsPlain c) (depth : Nat)
    (cs : List Char) : Fits depth (plain ++ cs) ↔ Fits depth cs := by
  induction plain with
  | nil => rfl
  | cons c plain ih =>
      rw [List.cons_append, fits_cons (h c List.mem_cons_self),
        ih fun c hc => h c (List.mem_cons_of_mem _ hc)]

theorem fits_dots {depth : Nat} {cs : List Char} :
    Fits depth ('.' :: '.' :: '.' :: cs) ↔ Fits depth cs := by
  have hpoint : IsPlain '.' := by decide
  rw [fits_cons hpoint, fits_cons hpoint, fits_cons hpoint]

theorem fits_skipBlanks {depth : Nat} {cs : List Char} :
    Fits depth (skipBlanks cs) ↔ Fits depth cs := by
  obtain ⟨blanks, hblanks, hcs⟩ := exists_blanks cs
  have hplain : ∀ c ∈ blanks, IsPlain c := by
    intro c hc
    have hcases : c = ' ' ∨ c = '\t' ∨ c = '\r' ∨ c = '\n' := by
      simpa [isBlank, or_assoc] using hblanks c hc
    rcases hcases with rfl | rfl | rfl | rfl <;> decide
  have h := fits_append hplain depth (skipBlanks cs)
  rw [← hcs] at h
  exact h.symm

theorem fits_open {c : Char} (hc : c = '[' ∨ c = '{' ∨ c = '(') {depth : Nat} {cs : List Char} :
    Fits depth (c :: cs) ↔ depth < maxNesting ∧ Fits (depth + 1) cs := by
  have hquote : ¬ (c = '"' ∨ c = '\'') := by
    rcases hc with rfl | rfl | rfl <;> decide
  simp only [Fits, firstTooDeep, if_neg hquote, if_pos hc]
  split
  · simp only [reduceCtorEq, false_iff]
    omega
  · simp only [iff_and_self]
    omega

theorem fits_close {c : Char} (hc : c = ']' ∨ c = '}' ∨ c = ')') {depth : Nat} {cs : List Char} :
    Fits (depth + 1) (c :: cs) ↔ Fits depth cs := by
  have hother : ¬ (c = '"' ∨ c = '\'') ∧ ¬ (c = '[' ∨ c = '{' ∨ c = '(') := by
    rcases hc with rfl | rfl | rfl <;> decide
  simp only [Fits, firstTooDeep, if_neg hother.1, if_neg hother.2, if_pos hc, Nat.add_sub_cancel]

/-- The scan leaves a string where the grammar does. -/
theorem firstTooDeep_quoted {quote : Char} {text body : List Char} (h : Quoted quote text body)
    (hquote : quote ≠ '\\') (budget depth : Nat) (rest : List Char) :
    firstTooDeep budget depth (some ⟨quote, false⟩) (body ++ quote :: rest) =
      firstTooDeep budget depth none rest := by
  induction h with
  | nil => simp [firstTooDeep, InString.next, hquote]
  | plain hc hescape _ ih => simp [firstTooDeep, InString.next, hc, hescape, ih]
  | escaped _ _ ih => simp [firstTooDeep, InString.next, ih]

theorem isPlain_of_isNameChar {c : Char} (h : isNameChar c = true) : IsPlain c := by
  intro hc
  simp only [List.mem_cons, List.not_mem_nil, or_false] at hc
  rcases hc with rfl | rfl | rfl | rfl | rfl | rfl | rfl | rfl <;> exact absurd h (by decide)

theorem isPlain_of_mem_numeral {n : Numeral} (hn : NumeralSpelled n) :
    ∀ c ∈ n.text, IsPlain c := by
  have hdigits {ds : List Char} (h : Digits ds) : ∀ c ∈ ds, IsPlain c := fun c hc =>
    isPlain_of_isNameChar (by simp [isNameChar, h.2 c hc])
  have hfraction : ∀ c ∈ fractionText n.fraction, IsPlain c := by
    cases h : n.fraction with
    | none => simp [fractionText]
    | some ds =>
        have hds := hdigits (hn.fraction ds h)
        intro c hc
        rcases List.mem_cons.1 hc with rfl | hc
        · decide
        · exact hds c hc
  have hexponent : ∀ c ∈ exponentText n.exponent, IsPlain c := by
    cases h : n.exponent with
    | none => simp [exponentText]
    | some e =>
        obtain ⟨hmark, hsign, hds⟩ := hn.exponent e h
        intro c hc
        rcases List.mem_cons.1 hc with rfl | hc
        · rcases hmark with h | h <;> rw [h] <;> decide
        · rcases List.mem_append.1 hc with hc | hc
          · rcases hsign c (Option.mem_toList.1 hc) with rfl | rfl <;> decide
          · exact hdigits hds c hc
  intro c hc
  rw [text_eq] at hc
  simp only [List.mem_append] at hc
  rcases hc with ((hc | hc) | hc) | hc
  · cases hnegative : n.negative with
    | true =>
        obtain rfl : c = '-' := by simpa [hnegative] using hc
        decide
    | false => simp [hnegative] at hc
  · exact hdigits hn.whole c hc
  · exact hfraction c hc
  · exact hexponent c hc

/-- A token that is no bracket leaves the depth as it is. -/
theorem fits_token {cs rest : List Char} {t : Token} (h : Token.read? cs = some (t, rest))
    (ht : ∀ c, t = .mark c → IsPlain c) (depth : Nat) : Fits depth cs ↔ Fits depth rest := by
  obtain ⟨lexeme, hspelled, rfl⟩ := read?_sound h
  cases hspelled with
  | name hc hcs =>
      refine fits_append ?_ depth rest
      intro d hd
      rcases List.mem_cons.1 hd with rfl | hd
      · exact isPlain_of_isNameChar (by simp [isNameChar, hc])
      · exact isPlain_of_isNameChar (hcs d hd)
  | numeral hn => exact fits_append (isPlain_of_mem_numeral hn) depth rest
  | @string quote text body hquote hbody =>
      have hbackslash : quote ≠ '\\' := by
        rcases hquote with rfl | rfl <;> decide
      have hscan := firstTooDeep_quoted hbody hbackslash maxNesting depth rest
      simp only [Fits, List.cons_append, List.append_assoc, List.nil_append, firstTooDeep,
        if_pos hquote, hscan]
  | ellipsis => exact fits_dots
  | @mark c _ => exact fits_cons (ht c rfl) depth rest

end SchemaWeave.Grammar
