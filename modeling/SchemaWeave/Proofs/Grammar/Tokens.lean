import SchemaWeave.Proofs.Grammar.Lexemes

/-!
The longest token at the beginning of a text, computed. The first character says which scanner may
take it, so the scanners never compete, and whatever the first token of a text is, one scanner finds
it and the others find nothing.
-/

namespace SchemaWeave.Grammar

open SchemaWeave.Expr (isNameStart isDigit Numeral string? name? stripDots)

section Classes

theorem class_of_mark : ∀ c ∈ marks, isNameStart c = false ∧ isDigit c = false ∧ c ≠ '-' ∧
    c ≠ '"' ∧ c ≠ '\'' := by
  intro c hc
  simp only [marks, List.mem_cons, List.not_mem_nil, or_false] at hc
  rcases hc with rfl | rfl | rfl | rfl | rfl | rfl | rfl | rfl | rfl | rfl <;> decide

theorem isNameStart_of_isDigit {c : Char} (h : isDigit c = true) : isNameStart c = false := by
  have hdigit : 48 ≤ c.toNat ∧ c.toNat ≤ 57 := by
    simpa [isDigit, Char.le_def, UInt32.le_iff_toNat_le] using h
  have hne (d : Char) (hd : 57 < d.toNat ∨ d.toNat < 48) : c ≠ d := by
    rintro rfl
    omega
  simp only [isNameStart, Bool.or_eq_false_iff, Bool.and_eq_false_iff, decide_eq_false_iff_not,
    Char.le_def, UInt32.le_iff_toNat_le, beq_eq_false_iff_ne]
  refine ⟨⟨⟨.inl ?_, .inl ?_⟩, hne _ (.inl (by decide))⟩, hne _ (.inr (by decide))⟩
  · show ¬ 97 ≤ c.toNat
    omega
  · show ¬ 65 ≤ c.toNat
    omega

theorem class_of_name {c : Char} (h : isNameStart c = true) :
    c ∉ marks ∧ (isDigit c = false ∧ c ≠ '-') ∧ c ≠ '"' ∧ c ≠ '\'' := by
  refine ⟨?_, ⟨?_, ?_⟩, ?_, ?_⟩
  · intro hmark
    simp [(class_of_mark c hmark).1] at h
  · cases hdigit : isDigit c with
    | false => rfl
    | true =>
        rw [isNameStart_of_isDigit hdigit] at h
        cases h
  all_goals
    rintro rfl
    cases h

theorem class_of_numeral {c : Char} (h : isDigit c = true ∨ c = '-') :
    c ∉ marks ∧ isNameStart c = false ∧ c ≠ '"' ∧ c ≠ '\'' := by
  refine ⟨?_, ?_, ?_, ?_⟩
  · intro hmark
    obtain ⟨-, hdigit, hminus, -⟩ := class_of_mark c hmark
    simp [hdigit, hminus] at h
  · rcases h with h | rfl
    · exact isNameStart_of_isDigit h
    · rfl
  all_goals
    rintro rfl
    rcases h with h | h <;> cases h

theorem class_of_quote {c : Char} (h : c = '"' ∨ c = '\'') :
    c ∉ marks ∧ isDigit c = false ∧ c ≠ '-' := by
  rcases h with rfl | rfl <;> decide

theorem name?_none {c : Char} (h : isNameStart c = false) (cs : List Char) :
    name? (c :: cs) = none := by simp [name?, h]

theorem string?_none {c : Char} (h : c ≠ '"' ∧ c ≠ '\'') (cs : List Char) :
    string? (c :: cs) = none := by simp [string?, h]

theorem numeral_none {c : Char} (h : isDigit c = false ∧ c ≠ '-') (cs : List Char) :
    Numeral.read? (c :: cs) = none := by
  have hminus : (c :: cs).head? ≠ some '-' := by simpa using h.2
  simp [read?_other hminus, readUnsigned, Expr.someDigits?, h.1]

end Classes

/-- The longest token at the beginning of a text. -/
def Token.read? : List Char → Option (Token × List Char)
  | [] => none
  | c :: cs =>
    if c ∈ marks then
      match stripDots (c :: cs) with
      | some rest => some (.ellipsis, rest)
      | none => some (.mark c, cs)
    else if c = '"' ∨ c = '\'' then (string? (c :: cs)).map fun (s, rest) => (.string s, rest)
    else if isNameStart c then (name? (c :: cs)).map fun (s, rest) => (.name s, rest)
    else (Numeral.read? (c :: cs)).map fun (n, rest) => (.numeral n, rest)

theorem read?_eq_string {c : Char} (hc : c = '"' ∨ c = '\'') (cs : List Char) :
    Token.read? (c :: cs) = (string? (c :: cs)).map fun (s, rest) => (.string s, rest) := by
  rw [Token.read?, if_neg (class_of_quote hc).1, if_pos hc]

theorem read?_eq_name {c : Char} (hc : isNameStart c = true) (cs : List Char) :
    Token.read? (c :: cs) = (name? (c :: cs)).map fun (s, rest) => (.name s, rest) := by
  obtain ⟨hmark, -, hquote⟩ := class_of_name hc
  rw [Token.read?, if_neg hmark, if_neg (not_or.2 hquote), if_pos hc]

theorem read?_eq_numeral {c : Char} (hc : isDigit c = true ∨ c = '-') (cs : List Char) :
    Token.read? (c :: cs) = (Numeral.read? (c :: cs)).map fun (n, rest) => (.numeral n, rest) := by
  obtain ⟨hmark, hname, hquote⟩ := class_of_numeral hc
  rw [Token.read?, if_neg hmark, if_neg (not_or.2 hquote), hname, if_neg Bool.false_ne_true]

theorem stripDots_eq_some {cs rest : List Char} :
    stripDots cs = some rest ↔ cs = '.' :: '.' :: '.' :: rest := by
  unfold stripDots
  split
  · simp
  · rename_i h
    simp only [reduceCtorEq, false_iff]
    exact h rest

/-- Which scanner finds the first token of a text. -/
theorem read?_inv {cs rest : List Char} {t : Token} (h : Token.read? cs = some (t, rest)) :
    ∃ c more, cs = c :: more ∧
      match t with
      | .mark m => m = c ∧ c ∈ marks ∧ rest = more ∧ stripDots cs = none
      | .ellipsis => cs = '.' :: '.' :: '.' :: rest
      | .string s => (c = '"' ∨ c = '\'') ∧ string? cs = some (s, rest)
      | .name s => isNameStart c = true ∧ name? cs = some (s, rest)
      | .numeral n => (isDigit c = true ∨ c = '-') ∧ Numeral.read? cs = some (n, rest) := by
  cases cs with
  | nil => cases h
  | cons c cs =>
      refine ⟨c, cs, rfl, ?_⟩
      rw [Token.read?] at h
      split at h
      · rename_i hc
        split at h
        · rename_i hdots
          cases h
          exact stripDots_eq_some.1 hdots
        · rename_i hdots
          cases h
          exact ⟨rfl, hc, rfl, hdots⟩
      · split at h
        · rename_i hquote
          obtain ⟨⟨s, rest'⟩, hs, heq⟩ := Option.map_eq_some_iff.1 h
          cases heq
          exact ⟨hquote, hs⟩
        · split at h
          · rename_i hname
            obtain ⟨⟨s, rest'⟩, hs, heq⟩ := Option.map_eq_some_iff.1 h
            cases heq
            exact ⟨hname, hs⟩
          · obtain ⟨⟨n, rest'⟩, hn, heq⟩ := Option.map_eq_some_iff.1 h
            cases heq
            refine ⟨?_, hn⟩
            -- any other character begins no numeral
            by_cases hminus : c = '-'
            · exact .inr hminus
            · refine .inl ?_
              cases hdigit : isDigit c with
              | true => rfl
              | false =>
                  rw [numeral_none ⟨hdigit, hminus⟩] at hn
                  cases hn

theorem read?_sound {cs rest : List Char} {t : Token} (h : Token.read? cs = some (t, rest)) :
    ∃ lexeme, Spelled t lexeme ∧ cs = lexeme ++ rest := by
  obtain ⟨c, more, hcs, h⟩ := read?_inv h
  cases t with
  | name s => exact name?_sound h.2
  | numeral n => exact numeral_sound h.2
  | string s => exact string?_sound h.2
  | ellipsis => exact ⟨_, .ellipsis, h⟩
  | mark m =>
      obtain ⟨rfl, hc, rfl, -⟩ := h
      exact ⟨_, .mark hc, hcs⟩

theorem numeral_head {n : Numeral} (hn : NumeralSpelled n) :
    ∃ c cs, n.text = c :: cs ∧ (isDigit c = true ∨ c = '-') := by
  obtain ⟨d, ds, hwhole⟩ := List.exists_cons_of_ne_nil hn.whole.1
  have hd : isDigit d = true := hn.whole.2 d (hwhole ▸ List.mem_cons_self)
  rw [text_eq, hwhole]
  cases n.negative with
  | true => exact ⟨_, _, rfl, .inr rfl⟩
  | false => exact ⟨_, _, rfl, .inl hd⟩

/-- A token at the beginning of a text is taken, or a longer one. -/
theorem read?_append {t : Token} {lexeme : List Char} (h : Spelled t lexeme) (tail : List Char) :
    ∃ t' rest, Token.read? (lexeme ++ tail) = some (t', rest) ∧ rest.length ≤ tail.length ∧
      (tail = [] → t' = t) := by
  cases h with
  | @name c cs hc hcs =>
      have hscan := name?_append hc hcs tail
      rw [List.cons_append] at hscan ⊢
      rw [read?_eq_name hc, hscan]
      refine ⟨_, _, rfl, dropWhile_length_le _ tail, ?_⟩
      rintro rfl
      simp
  | @string quote text body hquote hbody =>
      have hscan := string?_complete hquote hbody tail
      rw [List.cons_append, List.cons_append] at hscan ⊢
      rw [read?_eq_string hquote, hscan]
      exact ⟨_, _, rfl, Nat.le_refl _, fun _ => rfl⟩
  | ellipsis => exact ⟨.ellipsis, tail, rfl, Nat.le_refl _, fun _ => rfl⟩
  | @mark c hc =>
      rw [List.singleton_append, Token.read?, if_pos hc]
      cases hdots : stripDots (c :: tail) with
      | none => exact ⟨_, _, rfl, Nat.le_refl _, fun _ => rfl⟩
      | some rest =>
          obtain ⟨rfl, rfl⟩ := List.cons.inj (stripDots_eq_some.1 hdots)
          refine ⟨_, _, rfl, ?_, ?_⟩
          · simp only [List.length_cons]
            omega
          · intro h
            cases h
  | @numeral n hn =>
      obtain ⟨c, cs, htext, hc⟩ := numeral_head hn
      obtain ⟨n', rest, hscan, hlength, hsame⟩ := numeral_append hn tail
      rw [htext, List.cons_append] at hscan ⊢
      rw [read?_eq_numeral hc, hscan]
      refine ⟨_, _, rfl, hlength, fun h => ?_⟩
      rw [hsame h]

theorem Spelled.unique {t t' : Token} {lexeme : List Char} (h : Spelled t lexeme)
    (h' : Spelled t' lexeme) : t = t' := by
  obtain ⟨u, rest, hread, -, hu⟩ := read?_append h []
  obtain ⟨u', rest', hread', -, hu'⟩ := read?_append h' []
  rw [hread] at hread'
  cases hread'
  rw [← hu rfl, ← hu' rfl]

/-- `Token.read?` finds the longest token. -/
theorem longest_iff {t : Token} {cs rest : List Char} :
    Longest t cs rest ↔ Token.read? cs = some (t, rest) := by
  constructor
  · rintro ⟨lexeme, hspelled, rfl, hmax⟩
    obtain ⟨t', rest', hread, hlength, -⟩ := read?_append hspelled rest
    obtain ⟨lexeme', hspelled', hcut⟩ := read?_sound hread
    have hle := hmax t' lexeme' hspelled' ⟨rest', hcut.symm⟩
    have hsum := congrArg List.length hcut
    rw [List.length_append, List.length_append] at hsum
    obtain ⟨rfl, rfl⟩ := List.append_inj hcut (by omega)
    rw [hread, hspelled.unique hspelled']
  · intro hread
    obtain ⟨lexeme, hspelled, rfl⟩ := read?_sound hread
    refine ⟨lexeme, hspelled, rfl, ?_⟩
    rintro t' lexeme' hspelled' ⟨tail, htail⟩
    obtain ⟨t'', rest', hread', hlength, -⟩ := read?_append hspelled' tail
    rw [htail, hread] at hread'
    cases hread'
    have hsum := congrArg List.length htail
    rw [List.length_append, List.length_append] at hsum
    omega

section Scanners

variable {cs rest : List Char}

theorem read?_of_name {s : String} (h : name? cs = some (s, rest)) :
    Token.read? cs = some (.name s, rest) := by
  cases cs with
  | nil => cases h
  | cons c cs =>
      cases hc : isNameStart c with
      | false =>
          rw [name?_none hc] at h
          cases h
      | true => rw [read?_eq_name hc, h, Option.map_some]

theorem read?_of_string {s : String} (h : string? cs = some (s, rest)) :
    Token.read? cs = some (.string s, rest) := by
  obtain ⟨lexeme, hspelled, rfl⟩ := string?_sound h
  cases hspelled with
  | string hquote hbody =>
      rw [List.cons_append, List.cons_append] at h ⊢
      rw [read?_eq_string hquote, h, Option.map_some]

theorem read?_of_numeral {n : Numeral} (h : Numeral.read? cs = some (n, rest)) :
    Token.read? cs = some (.numeral n, rest) := by
  obtain ⟨lexeme, hspelled, rfl⟩ := numeral_sound h
  cases hspelled with
  | numeral hn =>
      obtain ⟨c, cs, htext, hc⟩ := numeral_head hn
      rw [htext, List.cons_append] at h ⊢
      rw [read?_eq_numeral hc, h, Option.map_some]

theorem read?_of_mark {c : Char} (hc : c ∈ marks) (hdot : c ≠ '.') (cs : List Char) :
    Token.read? (c :: cs) = some (.mark c, cs) := by
  have hdots : stripDots (c :: cs) = none := by
    cases h : stripDots (c :: cs) with
    | none => rfl
    | some rest => exact absurd (List.cons.inj (stripDots_eq_some.1 h)).1 hdot
  rw [Token.read?, if_pos hc, hdots]

theorem read?_of_dots (h : stripDots cs = some rest) :
    Token.read? cs = some (.ellipsis, rest) := by
  rw [stripDots_eq_some.1 h]
  rfl

end Scanners

end SchemaWeave.Grammar
