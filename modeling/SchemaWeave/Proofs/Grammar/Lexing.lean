import SchemaWeave.Proofs.Grammar.Tokens

/-!
A text is cut into tokens from its beginning, blanks left out: which tokens follow depends only on
what is left of the text once its blanks are skipped.
-/

namespace SchemaWeave.Grammar

open SchemaWeave.Expr (isNameStart isDigit isBlank skipBlanks)

theorem read?_blank {c : Char} (hc : isBlank c = true) (cs : List Char) :
    Token.read? (c :: cs) = none := by
  have hcases : c = ' ' ∨ c = '\t' ∨ c = '\r' ∨ c = '\n' := by
    simpa [isBlank, or_assoc] using hc
  have hother : c ∉ marks ∧ ¬ (c = '"' ∨ c = '\'') ∧ isNameStart c = false ∧
      isDigit c = false ∧ c ≠ '-' := by
    rcases hcases with rfl | rfl | rfl | rfl <;> decide
  obtain ⟨hmark, hquote, hname, hnumeral⟩ := hother
  rw [Token.read?, if_neg hmark, if_neg hquote, hname, if_neg Bool.false_ne_true,
    numeral_none hnumeral]
  rfl

theorem skipBlanks_of_read? {cs : List Char} {found : Token × List Char}
    (h : Token.read? cs = some found) : skipBlanks cs = cs := by
  cases cs with
  | nil => rfl
  | cons c cs =>
      have hc : ¬ isBlank c = true := by
        intro hblank
        rw [read?_blank hblank] at h
        cases h
      exact List.dropWhile_cons_of_neg hc

theorem skipBlanks_append {blanks : List Char} (h : ∀ c ∈ blanks, isBlank c = true)
    (cs : List Char) : skipBlanks (blanks ++ cs) = skipBlanks cs :=
  List.dropWhile_append_of_pos h

theorem exists_blanks (cs : List Char) :
    ∃ blanks, (∀ c ∈ blanks, isBlank c = true) ∧ cs = blanks ++ skipBlanks cs :=
  ⟨cs.takeWhile isBlank, List.all_eq_true.1 List.all_takeWhile,
    List.takeWhile_append_dropWhile.symm⟩

@[simp] theorem skipBlanks_skipBlanks (cs : List Char) :
    skipBlanks (skipBlanks cs) = skipBlanks cs := by
  obtain ⟨blanks, hblanks, hcs⟩ := exists_blanks cs
  have h := skipBlanks_append hblanks (skipBlanks cs)
  rw [← hcs] at h
  exact h.symm

theorem lexes_nil {cs : List Char} : Lexes cs [] ↔ skipBlanks cs = [] := by
  constructor
  · intro h
    cases h with
    | nil hblanks =>
        have h := skipBlanks_append hblanks []
        rwa [List.append_nil] at h
  · intro h
    obtain ⟨blanks, hblanks, hcs⟩ := exists_blanks cs
    rw [h, List.append_nil] at hcs
    rw [hcs]
    exact .nil hblanks

theorem lexes_cons {cs : List Char} {t : Token} {ts : List Token} :
    Lexes cs (t :: ts) ↔ ∃ rest, Token.read? (skipBlanks cs) = some (t, rest) ∧ Lexes rest ts := by
  constructor
  · intro h
    cases h with
    | @cons blanks cs rest _ _ hblanks hlongest hrest =>
        have hread := longest_iff.1 hlongest
        rw [skipBlanks_append hblanks, skipBlanks_of_read? hread]
        exact ⟨rest, hread, hrest⟩
  · rintro ⟨rest, hread, hrest⟩
    obtain ⟨blanks, hblanks, hcs⟩ := exists_blanks cs
    rw [hcs]
    exact .cons hblanks (longest_iff.2 hread) hrest

theorem lexes_skipBlanks {cs : List Char} {ts : List Token} :
    Lexes (skipBlanks cs) ts ↔ Lexes cs ts := by
  cases ts <;> simp only [lexes_nil, lexes_cons, skipBlanks_skipBlanks]

theorem read?_length_lt {cs rest : List Char} {t : Token}
    (h : Token.read? cs = some (t, rest)) : rest.length < cs.length := by
  obtain ⟨lexeme, hspelled, rfl⟩ := read?_sound h
  have hne : lexeme ≠ [] := by
    cases hspelled with
    | numeral hn =>
        obtain ⟨c, cs, htext, -⟩ := numeral_head hn
        rw [htext]
        exact List.cons_ne_nil c cs
    | name | string | ellipsis | mark => exact List.cons_ne_nil _ _
  have hpos := List.length_pos_iff.2 hne
  rw [List.length_append]
  omega

/-- A text has no more tokens than characters. -/
theorem Lexes.length_le {cs : List Char} {ts : List Token} (h : Lexes cs ts) :
    ts.length ≤ cs.length := by
  induction h with
  | nil => exact Nat.zero_le _
  | cons _ hlongest _ ih =>
      have hlt := read?_length_lt (longest_iff.1 hlongest)
      rw [List.length_cons, List.length_append]
      omega

theorem Lexes.length_left_le {cs : List Char} {ts us : List Token} (h : Lexes cs (ts ++ us)) :
    ts.length ≤ cs.length := by
  have hall := h.length_le
  rw [List.length_append] at hall
  omega

end SchemaWeave.Grammar
