import Mathlib.Data.List.Basic
import SchemaWeave.Json.Printer
import SchemaWeave.Json.Reader

/-!
Texts and integers that are written and read again. A reader of one takes what was written of it and
leaves the rest: behind the closing quote of a text any rest (`unquote_escaped`), behind the digits
of an integer a rest that no numeral goes on with (`scalar_intText`).
-/

namespace SchemaWeave.Json

section Texts

/-- How a character is written: by a letter that stands for it, by its code, or as itself. -/
theorem escapeChar_cases (c : Char) :
    (∃ e, e ≠ 'u' ∧ shortEscape? e = some c ∧ escapeChar c = ['\\', e]) ∨
      (c.toNat < 32 ∧ escapeChar c =
        ['\\', 'u', '0', '0', hexDigit (c.toNat / 16), hexDigit (c.toNat % 16)]) ∨
      (c ≠ '"' ∧ c ≠ '\\' ∧ 32 ≤ c.toNat ∧ escapeChar c = [c]) := by
  by_cases hshort : c ∈ ['"', '\\', '\x08', '\x0c', '\n', '\r', '\t']
  · left
    simp only [List.mem_cons, List.not_mem_nil, or_false] at hshort
    rcases hshort with rfl | rfl | rfl | rfl | rfl | rfl | rfl <;>
      exact ⟨_, by decide, by decide, rfl⟩
  · right
    simp only [List.mem_cons, List.not_mem_nil, or_false, not_or] at hshort
    obtain ⟨hquote, hbackslash, hb, hf, hn, hr, ht⟩ := hshort
    simp only [escapeChar, if_neg hquote, if_neg hbackslash, if_neg hb, if_neg hf, if_neg hn,
      if_neg hr, if_neg ht]
    by_cases hcontrol : c.toNat < 32
    · exact .inl ⟨hcontrol, if_pos hcontrol⟩
    · exact .inr ⟨hquote, hbackslash, Nat.le_of_not_lt hcontrol, if_neg hcontrol⟩

/-- The two digits of a control character are its code. -/
theorem hexUnit_control {n : Nat} (hn : n < 32) (rest : List Char) :
    hexUnit ('0' :: '0' :: hexDigit (n / 16) :: hexDigit (n % 16) :: rest) = .ok (n, rest) := by
  have hdigits : ∀ m < 16, hexValue? (hexDigit m) = some m := by decide
  have hzero : hexValue? '0' = some 0 := rfl
  simp only [hexUnit, hzero, hdigits (n / 16) (by omega), hdigits (n % 16) (by omega)]
  congr 2
  omega

theorem unicodeEscape_control {c : Char} (hc : c.toNat < 32) (rest : List Char) :
    unicodeEscape ('0' :: '0' :: hexDigit (c.toNat / 16) :: hexDigit (c.toNat % 16) :: rest) =
      .ok (c, rest) := by
  have hlow : ¬ (0xDC00 ≤ c.toNat ∧ c.toNat ≤ 0xDFFF) := by omega
  have hhigh : ¬ (0xD800 ≤ c.toNat ∧ c.toNat ≤ 0xDBFF) := by omega
  rw [unicodeEscape, hexUnit_control hc]
  simp only [bind, Except.bind, if_neg hlow, if_neg hhigh, Char.ofNat_toNat]

/-- One step takes one character as it is written. -/
theorem unquote_escapeChar {fuel : Nat} {text cs rest : List Char} (c : Char)
    (h : unquote fuel cs = .ok (text, rest)) :
    unquote (fuel + 1) (escapeChar c ++ cs) = .ok (c :: text, rest) := by
  have hmarks : ('\\' : Char) ≠ '"' := by decide
  rcases escapeChar_cases c with ⟨e, hu, he, hc⟩ | ⟨hcontrol, hc⟩ | ⟨hquote, hbackslash, hplain, hc⟩
  · simp only [hc, List.cons_append, List.nil_append, unquote, if_neg hmarks, if_pos, if_neg hu, he,
      h, bind, Except.bind]
  · simp only [hc, List.cons_append, List.nil_append, unquote, if_neg hmarks, if_pos,
      unicodeEscape_control hcontrol, h, bind, Except.bind]
  · simp only [hc, List.cons_append, List.nil_append, unquote, if_neg hquote, if_neg hbackslash,
      if_neg (Nat.not_lt.2 hplain), h, bind, Except.bind]

/-- **A written text is read back**, whatever follows its closing quote. -/
theorem unquote_escaped {fuel : Nat} {text : List Char} (rest : List Char)
    (hfuel : (text.flatMap escapeChar).length < fuel) :
    unquote fuel (text.flatMap escapeChar ++ '"' :: rest) = .ok (text, rest) := by
  induction text generalizing fuel with
  | nil =>
      obtain ⟨fuel, rfl⟩ := Nat.exists_eq_add_of_lt hfuel
      rfl
  | cons c text ih =>
      have hlength : 0 < (escapeChar c).length := by
        rcases escapeChar_cases c with ⟨e, -, -, hc⟩ | ⟨-, hc⟩ | ⟨-, -, -, hc⟩ <;> simp [hc]
      rw [List.flatMap_cons, List.length_append] at hfuel
      obtain ⟨fuel, rfl⟩ := Nat.exists_eq_add_of_lt (show 0 < fuel by omega)
      rw [List.flatMap_cons, List.append_assoc]
      exact unquote_escapeChar c (ih (by omega))

end Texts

section Integers

/-- What may follow a value: nothing, a blank, a comma or a closing bracket. -/
def Ends (rest : List Char) : Prop :=
  ∀ c ∈ rest.head?, isBlank c = true ∨ c = ',' ∨ c = ']' ∨ c = '}'

theorem ends_nil : Ends [] := nofun

/-- No digit, point or exponent begins there. -/
theorem Ends.no_numeral {rest : List Char} (h : Ends rest) :
    rest.takeWhile isDigit = [] ∧ fractionDigits rest = .ok (none, rest) ∧
      exponentPart rest = .ok (none, rest) := by
  cases rest with
  | nil => exact ⟨rfl, rfl, rfl⟩
  | cons c rest =>
      have hc : c = ' ' ∨ c = '\n' ∨ c = '\t' ∨ c = '\r' ∨ c = ',' ∨ c = ']' ∨ c = '}' := by
        have := h c rfl
        simpa only [isBlank, Bool.or_eq_true, beq_iff_eq, or_assoc] using this
      rcases hc with rfl | rfl | rfl | rfl | rfl | rfl | rfl <;> exact ⟨rfl, rfl, rfl⟩

theorem isDigit_of_mem_digitChars {n : Nat} {c : Char} (hc : c ∈ Decimal.digitChars n) :
    isDigit c = true := by
  have hdigit := Nat.isDigit_of_mem_toDigits (by decide) (by decide) hc
  simpa [isDigit, Char.isDigit, Char.le_def] using hdigit

/-- Only zero is written with a leading zero. -/
theorem head_digitChars {n : Nat} (hn : 0 < n) : (Decimal.digitChars n).head? ≠ some '0' := by
  have hdigit : ∀ d < 10, 0 < d → Nat.digitChar d ≠ '0' := by decide
  -- The first digit of a number is that of the number without its last digit.
  induction n using Nat.strongRecOn with
  | ind n ih =>
      by_cases hsmall : n < 10
      · rw [Decimal.digitChars, Nat.toDigits_of_lt_base hsmall]
        exact fun h => hdigit n hsmall hn (Option.some.inj h)
      · have hfirst := ih (n / 10) (by omega) (by omega)
        rw [Decimal.digitChars] at hfirst ⊢
        rwa [Nat.toDigits_of_base_le (by decide) (by omega), List.head?_append_of_ne_nil]
        exact Nat.toDigits_ne_nil

theorem wholeDigits_digitChars (n : Nat) {rest : List Char}
    (hrest : rest.takeWhile isDigit = []) :
    wholeDigits (Decimal.digitChars n ++ rest) = .ok (Decimal.digitChars n, rest) := by
  have hnil : Decimal.digitChars n ≠ [] := Nat.toDigits_ne_nil
  rcases Nat.eq_zero_or_pos n with rfl | hn
  · -- no digit is taken behind a zero
    cases rest with
    | nil => rfl
    | cons c rest =>
        have hc : ¬ isDigit c = true := fun hc => by simp [hc] at hrest
        exact if_neg hc
  · unfold wholeDigits
    split
    · next heq =>
        have hhead := head_digitChars hn
        rw [← List.head?_append_of_ne_nil _ hnil, heq] at hhead
        exact absurd rfl hhead
    · have hdigits : ∀ c ∈ Decimal.digitChars n, isDigit c = true :=
        fun c => isDigit_of_mem_digitChars
      have hdrop : rest.dropWhile isDigit = rest := by
        have hparts := List.takeWhile_append_dropWhile (p := isDigit) (l := rest)
        rwa [hrest] at hparts
      simp only [someDigits, List.takeWhile_append_of_pos hdigits, hrest, List.append_nil,
        List.isEmpty_iff, hnil, if_false, List.dropWhile_append_of_pos hdigits, hdrop]

/-- The digits of a word are all taken into the significand. -/
theorem accumulate_eq {digits : List Char} {significand : Nat}
    (h : Nat.ofDigitChars 10 digits significand < Number.wordSize) :
    accumulate significand digits = (Nat.ofDigitChars 10 digits significand, []) := by
  induction digits generalizing significand with
  | nil => rfl
  | cons d ds ih =>
      rw [Nat.ofDigitChars_cons, Nat.mul_comm] at h ⊢
      change Nat.ofDigitChars 10 ds (significand * 10 + digitValue d) < _ at h
      -- what is taken so far is not greater than all of it, so it fits the word as well
      have hgrows : ∀ next, next ≤ Nat.ofDigitChars 10 ds next := by
        intro next
        rw [Nat.ofDigitChars_eq_ofDigitChars_zero]
        exact Nat.le_add_right_of_le (Nat.le_mul_of_pos_left next (Nat.pow_pos (by decide)))
      rw [accumulate, if_pos (Nat.lt_of_le_of_lt (hgrows _) h)]
      exact ih h

/-- The integer that digits behind a sign stand for, if it fits the word of that sign. -/
theorem value_digitChars {n : Int} (h : Number.FitsInt64 n ∨ Number.FitsUInt64 n) :
    Numeral.value ⟨decide (n < 0), Decimal.digitChars n.natAbs, none, none⟩ = some (.int n) := by
  have hdigits : Nat.ofDigitChars 10 (Decimal.digitChars n.natAbs) 0 = n.natAbs :=
    Nat.ofDigitChars_toDigits (by decide) (by decide)
  simp only [Number.FitsInt64, Number.FitsUInt64] at h
  have hword : n.natAbs < Number.wordSize := by
    simp only [Number.wordSize]
    omega
  have haccumulate := accumulate_eq (hdigits.symm ▸ hword)
  rw [hdigits] at haccumulate
  simp only [Numeral.value, haccumulate, List.isEmpty_nil, if_true]
  by_cases hn : n < 0
  · have hbound : 0 < n.natAbs ∧ 2 * n.natAbs ≤ Number.wordSize := by
      simp only [Number.wordSize]
      omega
    have hvalue : -(n.natAbs : Int) = n := by omega
    simp only [hn, decide_true, Bool.not_true, Bool.false_eq_true, if_false, hbound, and_self,
      if_true, hvalue]
  · have hvalue : (n.natAbs : Int) = n := by omega
    simp only [hn, decide_false, Bool.not_false, if_true, hvalue]

/-- An integer is read back behind its sign. -/
theorem numeral_digitChars {n : Int} (h : Number.FitsInt64 n ∨ Number.FitsUInt64 n)
    {rest : List Char} (hrest : Ends rest) :
    numeral (decide (n < 0)) (Decimal.digitChars n.natAbs ++ rest) = .ok (.int n, rest) := by
  obtain ⟨hdigits, hfraction, hexponent⟩ := hrest.no_numeral
  simp only [numeral, wholeDigits_digitChars _ hdigits, hfraction, hexponent, bind, Except.bind,
    Option.map_none, value_digitChars h]

/-- **A written integer is read back**, in front of what ends a value. -/
theorem scalar_intText {n : Int} (h : Number.FitsInt64 n ∨ Number.FitsUInt64 n) :
    ∃ c cs, intText n = c :: cs ∧ (c = '-' ∨ isDigit c = true) ∧
      ∀ fuel rest, Ends rest → scalar fuel c (cs ++ rest) = .ok (.number (.int n), rest) := by
  by_cases hn : n < 0
  · refine ⟨'-', _, if_pos hn, .inl rfl, fun fuel rest hrest => ?_⟩
    have hnumeral := numeral_digitChars h hrest
    rw [decide_eq_true hn] at hnumeral
    simp only [scalar, hnumeral]
    rfl
  · obtain ⟨d, ds, hds⟩ : ∃ d ds, Decimal.digitChars n.natAbs = d :: ds :=
      List.exists_cons_of_ne_nil Nat.toDigits_ne_nil
    have hd : isDigit d = true := isDigit_of_mem_digitChars (hds ▸ List.mem_cons_self)
    refine ⟨d, ds, (if_neg hn).trans hds, .inr hd, fun fuel rest hrest => ?_⟩
    have hnumeral := numeral_digitChars h hrest
    rw [decide_eq_false hn, hds, List.cons_append] at hnumeral
    have hletter (c : Char) (hc : isDigit c = false) : d ≠ c := by
      rintro rfl
      exact absurd hd (by simp [hc])
    simp only [scalar, if_neg (hletter 'n' rfl), if_neg (hletter 't' rfl), if_neg (hletter 'f' rfl),
      if_neg (hletter '-' rfl), if_pos hd, hnumeral]
    rfl

end Integers

end SchemaWeave.Json
