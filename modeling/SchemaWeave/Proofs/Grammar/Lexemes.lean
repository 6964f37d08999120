import SchemaWeave.Proofs.Grammar.Rules

/-!
The scanners of names, strings and numerals against the spellings of the grammar. Each is shown
sound, what it takes being a spelling, and maximal, no spelling at the beginning of a text being
longer than what it takes.
-/

namespace SchemaWeave.Grammar

open SchemaWeave.Expr (isNameStart isNameChar isDigit Numeral escape? stringBody? string? name?
  someDigits? fractionPart exponentSign exponentPart WrittenExponent)

section Strings

theorem escape?_eq_some {e c : Char} : escape? e = some c ↔ (e, c) ∈ escapes := by
  simp only [escape?, escapes, List.mem_cons, Prod.mk.injEq, List.not_mem_nil, or_false]
  constructor
  · intro h
    repeat' split at h
    all_goals grind
  · intro h
    rcases h with ⟨rfl, rfl⟩ | ⟨rfl, rfl⟩ | ⟨rfl, rfl⟩ | ⟨rfl, rfl⟩ | ⟨rfl, rfl⟩ | ⟨rfl, rfl⟩ |
      ⟨rfl, rfl⟩ <;> rfl

theorem stringBody?_sound {quote : Char} {cs text rest : List Char}
    (h : stringBody? quote cs = some (text, rest)) :
    ∃ body, Quoted quote text body ∧ cs = body ++ quote :: rest := by
  fun_induction stringBody? quote cs generalizing text rest with
  | case1 => cases h
  | case2 more =>
      cases h
      exact ⟨[], .nil, rfl⟩
  | case3 => cases h
  | case4 e more _ ih =>
      obtain ⟨c, hc, h⟩ := Option.bind_eq_some_iff.1 h
      obtain ⟨⟨text', rest'⟩, htext, h⟩ := Option.bind_eq_some_iff.1 h
      cases h
      obtain ⟨body, hbody, rfl⟩ := ih htext
      exact ⟨'\\' :: e :: body, .escaped (escape?_eq_some.1 hc) hbody, rfl⟩
  | case5 c more hquote hescape ih =>
      obtain ⟨⟨text', rest'⟩, htext, h⟩ := Option.bind_eq_some_iff.1 h
      cases h
      obtain ⟨body, hbody, rfl⟩ := ih htext
      exact ⟨c :: body, .plain hquote hescape hbody, rfl⟩

theorem stringBody?_complete {quote : Char} {text body : List Char} (hquote : quote ≠ '\\')
    (h : Quoted quote text body) (rest : List Char) :
    stringBody? quote (body ++ quote :: rest) = some (text, rest) := by
  induction h with
  | nil =>
      unfold stringBody?
      simp
  | plain hc hescape _ ih =>
      rw [List.cons_append]
      unfold stringBody?
      simp [hc, hescape, ih]
  | escaped he _ ih => simp [stringBody?, Ne.symm hquote, escape?_eq_some.2 he, ih]

theorem string?_sound {cs rest : List Char} {s : String} (h : string? cs = some (s, rest)) :
    ∃ lexeme, Spelled (.string s) lexeme ∧ cs = lexeme ++ rest := by
  cases cs with
  | nil => cases h
  | cons quote cs =>
      rw [string?] at h
      split at h
      · rename_i hquote
        obtain ⟨⟨text, rest'⟩, hscan, heq⟩ := Option.map_eq_some_iff.1 h
        cases heq
        obtain ⟨body, hbody, rfl⟩ := stringBody?_sound hscan
        exact ⟨_, .string hquote hbody, by simp⟩
      · cases h

theorem string?_complete {quote : Char} {text body : List Char}
    (hquote : quote = '"' ∨ quote = '\'') (h : Quoted quote text body) (rest : List Char) :
    string? (quote :: body ++ [quote] ++ rest) = some (String.ofList text, rest) := by
  have hbackslash : quote ≠ '\\' := by
    rcases hquote with rfl | rfl <;> decide
  simp [string?, hquote, stringBody?_complete hbackslash h]

end Strings

section Names

theorem name?_sound {cs rest : List Char} {s : String} (h : name? cs = some (s, rest)) :
    ∃ lexeme, Spelled (.name s) lexeme ∧ cs = lexeme ++ rest := by
  cases cs with
  | nil => cases h
  | cons c cs =>
      rw [name?] at h
      split at h
      · cases h
        refine ⟨_, .name ‹_› fun d hd => ?_, by simp⟩
        exact List.all_eq_true.1 List.all_takeWhile d hd
      · cases h

theorem name?_append {c : Char} {cs : List Char} (hc : isNameStart c = true)
    (hcs : ∀ d ∈ cs, isNameChar d = true) (tail : List Char) :
    name? (c :: cs ++ tail) = some (String.ofList (c :: cs ++ tail.takeWhile isNameChar),
      tail.dropWhile isNameChar) := by
  simp [name?, hc, List.takeWhile_append_of_pos hcs, List.dropWhile_append_of_pos hcs]

end Names

section Numerals

theorem someDigits?_sound {cs ds rest : List Char} (h : someDigits? cs = some (ds, rest)) :
    Digits ds ∧ cs = ds ++ rest := by
  rw [someDigits?] at h
  split at h
  · cases h
  · rename_i hne
    cases h
    refine ⟨⟨hne, List.all_eq_true.1 List.all_takeWhile⟩, ?_⟩
    exact List.takeWhile_append_dropWhile.symm

theorem someDigits?_append {ds : List Char} (h : Digits ds) (tail : List Char) :
    someDigits? (ds ++ tail) =
      some (ds ++ tail.takeWhile isDigit, tail.dropWhile isDigit) := by
  obtain ⟨hne, hds⟩ := h
  rw [someDigits?, List.takeWhile_append_of_pos hds, List.dropWhile_append_of_pos hds]
  cases ds with
  | nil => exact absurd rfl hne
  | cons d ds => rfl

/-- The fraction of a numeral as it is written. -/
def fractionText : Option (List Char) → List Char
  | some digits => '.' :: digits
  | none => []

/-- The exponent of a numeral as it is written. -/
def exponentText : Option WrittenExponent → List Char
  | some e => e.text
  | none => []

theorem text_eq (n : Numeral) : n.text =
    (if n.negative then ['-'] else []) ++ n.whole ++ fractionText n.fraction ++
      exponentText n.exponent := by
  rcases n with ⟨negative, whole, _ | fraction, _ | exponent⟩ <;> rfl

theorem fractionPart_sound (cs : List Char) :
    (∀ ds ∈ (fractionPart cs).1, Digits ds) ∧
      cs = fractionText (fractionPart cs).1 ++ (fractionPart cs).2 := by
  unfold fractionPart
  split
  · rename_i rest
    cases h : someDigits? rest with
    | none => simp [fractionText]
    | some found =>
        obtain ⟨hdigits, rfl⟩ := someDigits?_sound h
        simpa [fractionText] using hdigits
  · simp [fractionText]

theorem exponentSign_sound (cs : List Char) :
    (∀ c ∈ (exponentSign cs).1, c = '+' ∨ c = '-') ∧
      cs = (exponentSign cs).1.toList ++ (exponentSign cs).2 := by
  unfold exponentSign
  cases cs with
  | nil => simp
  | cons c rest =>
      dsimp only
      split
      · simpa using ‹_›
      · simp

theorem exponentPart_sound (cs : List Char) :
    (∀ e ∈ (exponentPart cs).1, ExponentSpelled e) ∧
      cs = exponentText (exponentPart cs).1 ++ (exponentPart cs).2 := by
  unfold exponentPart
  cases cs with
  | nil => simp [exponentText]
  | cons mark rest =>
      dsimp only
      split
      · rename_i hmark
        obtain ⟨hsign, hrest⟩ := exponentSign_sound rest
        cases h : someDigits? (exponentSign rest).2 with
        | none => simp [exponentText]
        | some found =>
            obtain ⟨hdigits, hfound⟩ := someDigits?_sound h
            refine ⟨?_, ?_⟩
            · rintro e ⟨⟩
              exact ⟨hmark, hsign, hdigits⟩
            · rw [hfound] at hrest
              simp [exponentText, WrittenExponent.text, ← hrest]
      · simp [exponentText]

/-- A numeral whose sign has been read. -/
def readUnsigned (negative : Bool) (cs : List Char) : Option (Numeral × List Char) :=
  (someDigits? cs).map fun (whole, rest) =>
    let fraction := fractionPart rest
    let exponent := exponentPart fraction.2
    (⟨negative, whole, fraction.1, exponent.1⟩, exponent.2)

private theorem readUnsigned_eq (negative : Bool) (cs : List Char) : readUnsigned negative cs =
    match someDigits? cs with
    | none => none
    | some (whole, rest) =>
      let (fraction, rest) := fractionPart rest
      let (exponent, rest) := exponentPart rest
      some (⟨negative, whole, fraction, exponent⟩, rest) := by
  rw [readUnsigned]
  cases someDigits? cs <;> rfl

theorem read?_minus (cs : List Char) : Numeral.read? ('-' :: cs) = readUnsigned true cs :=
  (readUnsigned_eq true cs).symm

theorem read?_other {cs : List Char} (h : cs.head? ≠ some '-') :
    Numeral.read? cs = readUnsigned false cs := by
  have hother : ∀ rest, cs = '-' :: rest → False := by
    rintro rest rfl
    exact h rfl
  cases hdigits : someDigits? cs with
  | none => simp only [readUnsigned_eq, Numeral.read?, hdigits]
  | some found => simp only [readUnsigned_eq, Numeral.read?, hdigits]

theorem readUnsigned_sound {negative : Bool} {cs rest : List Char} {n : Numeral}
    (h : readUnsigned negative cs = some (n, rest)) :
    n.negative = negative ∧ NumeralSpelled n ∧
      cs = n.whole ++ fractionText n.fraction ++ exponentText n.exponent ++ rest := by
  obtain ⟨⟨whole, after⟩, hwhole, heq⟩ := Option.map_eq_some_iff.1 h
  obtain ⟨rfl, rfl⟩ := Prod.mk.inj heq
  obtain ⟨hdigits, rfl⟩ := someDigits?_sound hwhole
  obtain ⟨hfraction, hafter⟩ := fractionPart_sound after
  obtain ⟨hexponent, hrest⟩ := exponentPart_sound (fractionPart after).2
  refine ⟨rfl, ⟨hdigits, hfraction, hexponent⟩, ?_⟩
  dsimp only
  rw [List.append_assoc, ← hrest, List.append_assoc, ← hafter]

theorem numeral_sound {cs rest : List Char} {n : Numeral}
    (h : Numeral.read? cs = some (n, rest)) :
    ∃ lexeme, Spelled (.numeral n) lexeme ∧ cs = lexeme ++ rest := by
  have hcut (u : List Char) (negative : Bool) (h : readUnsigned negative u = some (n, rest)) :
      Spelled (.numeral n) n.text ∧ (if negative then ['-'] else []) ++ u = n.text ++ rest := by
    obtain ⟨hnegative, hspelled, rfl⟩ := readUnsigned_sound h
    refine ⟨.numeral hspelled, ?_⟩
    simp [text_eq, hnegative]
  by_cases hminus : cs.head? = some '-'
  · obtain ⟨u, rfl⟩ := List.head?_eq_some_iff.1 hminus
    rw [read?_minus] at h
    exact ⟨_, hcut u true h⟩
  · rw [read?_other hminus] at h
    exact ⟨_, hcut cs false h⟩

theorem fractionPart_append {ds : List Char} (h : Digits ds) (tail : List Char) :
    fractionPart ('.' :: ds ++ tail) =
      (some (ds ++ tail.takeWhile isDigit), tail.dropWhile isDigit) := by
  simp [fractionPart, someDigits?_append h]

theorem exponentPart_append {e : WrittenExponent} (h : ExponentSpelled e) (tail : List Char) :
    exponentPart (e.text ++ tail) =
      (some { e with digits := e.digits ++ tail.takeWhile isDigit }, tail.dropWhile isDigit) := by
  obtain ⟨mark, sign, digits⟩ := e
  obtain ⟨hmark, hsign, hdigits⟩ := h
  dsimp only at hmark hsign hdigits
  have hread : exponentSign (sign.toList ++ digits ++ tail) = (sign, digits ++ tail) := by
    cases sign with
    | some c => simp [exponentSign, hsign c rfl]
    | none =>
        obtain ⟨hne, hall⟩ := hdigits
        cases digits with
        | nil => exact absurd rfl hne
        | cons d ds =>
            have hd := hall d List.mem_cons_self
            have hsign : ¬ (d = '+' ∨ d = '-') := by
              rintro (rfl | rfl) <;> cases hd
            simp [exponentSign, hsign]
  simp only [WrittenExponent.text, List.cons_append, exponentPart, if_pos hmark, hread,
    someDigits?_append hdigits]

theorem fractionPart_length_le (cs : List Char) : (fractionPart cs).2.length ≤ cs.length := by
  have h := congrArg List.length (fractionPart_sound cs).2
  rw [List.length_append] at h
  omega

theorem exponentPart_length_le (cs : List Char) : (exponentPart cs).2.length ≤ cs.length := by
  have h := congrArg List.length (exponentPart_sound cs).2
  rw [List.length_append] at h
  omega

theorem dropWhile_length_le (p : Char → Bool) (cs : List Char) :
    (cs.dropWhile p).length ≤ cs.length :=
  (List.dropWhile_sublist p).length_le

theorem exponent_no_digits {e : WrittenExponent} (he : ExponentSpelled e) (tail : List Char) :
    (e.text ++ tail).takeWhile isDigit = [] ∧
      (e.text ++ tail).dropWhile isDigit = e.text ++ tail ∧
        fractionPart (e.text ++ tail) = (none, e.text ++ tail) := by
  obtain ⟨mark, sign, digits⟩ := e
  rcases he.mark with h | h <;> cases h <;> exact ⟨rfl, rfl, rfl⟩

/-- The scanner takes a numeral at the beginning of a text, or a longer one. -/
theorem readUnsigned_append (negative : Bool) {whole : List Char} {f : Option (List Char)}
    {x : Option WrittenExponent} (h : NumeralSpelled ⟨negative, whole, f, x⟩) (tail : List Char) :
    ∃ n rest, readUnsigned negative (whole ++ (fractionText f ++ (exponentText x ++ tail))) =
      some (n, rest) ∧ rest.length ≤ tail.length ∧
        (tail = [] → n = ⟨negative, whole, f, x⟩) := by
  obtain ⟨hwhole, hfraction, hexponent⟩ := h
  dsimp only at hwhole hfraction hexponent
  have hdot (z : List Char) : ('.' :: z).takeWhile isDigit = [] ∧
      ('.' :: z).dropWhile isDigit = '.' :: z := ⟨rfl, rfl⟩
  have hafter := dropWhile_length_le isDigit tail
  rw [readUnsigned, someDigits?_append hwhole, Option.map_some]
  refine ⟨_, _, rfl, ?_⟩
  -- the last part that is written may take more of the text, the parts before it are complete
  rcases f with _ | ds <;> rcases x with _ | e <;>
    simp only [fractionText, exponentText, List.nil_append]
  · refine ⟨?_, ?_⟩
    · have h₁ := fractionPart_length_le (tail.dropWhile isDigit)
      have h₂ := exponentPart_length_le (fractionPart (tail.dropWhile isDigit)).2
      omega
    · rintro rfl
      simp [fractionPart, exponentPart]
  · obtain ⟨htake, hdrop, hnone⟩ := exponent_no_digits (hexponent e rfl) tail
    simp only [htake, hdrop, hnone, exponentPart_append (hexponent e rfl)]
    refine ⟨hafter, ?_⟩
    rintro rfl
    simp
  · have hfraction := fractionPart_append (hfraction ds rfl) tail
    simp only [List.cons_append] at hfraction ⊢
    simp only [hdot, hfraction]
    refine ⟨?_, ?_⟩
    · have h := exponentPart_length_le (tail.dropWhile isDigit)
      omega
    · rintro rfl
      simp [exponentPart]
  · obtain ⟨htake, hdrop, -⟩ := exponent_no_digits (hexponent e rfl) tail
    have hfraction := fractionPart_append (hfraction ds rfl) (e.text ++ tail)
    simp only [List.cons_append] at hfraction ⊢
    simp only [hdot, hfraction, htake, hdrop, exponentPart_append (hexponent e rfl)]
    refine ⟨hafter, ?_⟩
    rintro rfl
    simp

/-- The scanner takes a numeral at the beginning of a text, or a longer one. -/
theorem numeral_append {n : Numeral} (h : NumeralSpelled n) (tail : List Char) :
    ∃ n' rest, Numeral.read? (n.text ++ tail) = some (n', rest) ∧ rest.length ≤ tail.length ∧
      (tail = [] → n' = n) := by
  obtain ⟨negative, whole, f, x⟩ := n
  have happend := readUnsigned_append negative h tail
  cases negative with
  | true => simpa [text_eq, read?_minus] using happend
  | false =>
      obtain ⟨d, ds, rfl⟩ := List.exists_cons_of_ne_nil h.whole.1
      have hd : isDigit d = true := h.whole.2 d List.mem_cons_self
      have hminus (cs : List Char) : (d :: cs).head? ≠ some '-' := by
        rintro ⟨⟩
        cases hd
      have hread (cs : List Char) : Numeral.read? (d :: cs) = readUnsigned false (d :: cs) :=
        read?_other (hminus cs)
      simpa [text_eq, hread] using happend

end Numerals

end SchemaWeave.Grammar
