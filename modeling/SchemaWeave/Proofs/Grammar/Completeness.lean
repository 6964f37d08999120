import SchemaWeave.Proofs.Grammar.Reading

/-!
What the grammar derives, the parser accepts, unless its brackets nest too deep. With
`expression_sound` this makes the grammar the specification of `Expr.parse`.
-/

namespace SchemaWeave.Grammar

open SchemaWeave.Expr (Parser Outcome padded char primary suffixes postfixed operands sum expression
  skipBlanks name? ofName maxNesting firstTooDeep)

section Productions

variable {nested : Parser Expr} {E : List Token → Expr → Prop} {depth : Nat}

theorem ofName_other {s : String} (h : s ∉ ["null", "undefined", "true", "false"]) :
    ofName s = .identifier s := by
  simp only [List.mem_cons, List.not_mem_nil, or_false, not_or] at h
  simp [ofName, h]

theorem token_reads {p : Parser Expr} {e : Expr} {t : Token} {us : List Token} {cs : List Char}
    (hcs : Lexes cs (t :: us)) (hfits : Fits depth cs) (ht : ∀ c, t ≠ .mark c)
    (hp : ∀ rest, Token.read? (skipBlanks cs) = some (t, rest) → p (skipBlanks cs) = .done e rest) :
    ∃ rest, p (skipBlanks cs) = .done e rest ∧ Lexes rest us ∧ Fits depth rest := by
  obtain ⟨rest, hread, hrest, hfits⟩ := lexes_token hcs hfits ht
  exact ⟨rest, hp rest hread, hrest, hfits⟩

theorem primary_reads (hnested : depth < maxNesting → Reads (depth + 1) nested E Stops)
    (hrefuses : Refuses nested (.ellipsis :: closers)) :
    Reads depth (primary nested) (Primary E) fun _ => True := by
  intro ts x hts cs us hcs _ hfits
  cases hts with
  | integer hn =>
      refine token_reads hcs hfits (by simp) fun rest hread => ?_
      rw [primary_at_numeral hread, toLiteral_eq, if_pos hn]
  | float hn =>
      refine token_reads hcs hfits (by simp) fun rest hread => ?_
      rw [primary_at_numeral hread, toLiteral_eq, if_neg hn]
  | string => exact token_reads hcs hfits (by simp) fun rest => primary_at_string
  | null htext =>
      refine token_reads hcs hfits (by simp) fun rest hread => ?_
      rw [primary_at_name hread, ofName, if_pos htext]
  | true | false => exact token_reads hcs hfits (by simp) fun rest => primary_at_name
  | identifier htext =>
      refine token_reads hcs hfits (by simp) fun rest hread => ?_
      rw [primary_at_name hread, ofName_other htext]
  | array hxs =>
      rw [List.cons_append, List.cons_append, List.append_assoc] at hcs
      obtain ⟨inner, rest, hopen, hread, hrest, hfits⟩ := bracketed_reads
        (fun h => element_reads (hnested h) hrefuses) (element_refuses hrefuses) (.inl rfl)
        (.inl rfl) hxs hcs hfits
      refine ⟨rest, ?_, hrest, hfits⟩
      simp [hopen, primary, hread, Outcome.map, Outcome.andThen]
  | object hxs =>
      rw [List.cons_append, List.cons_append, List.append_assoc] at hcs
      obtain ⟨inner, rest, hopen, hread, hrest, hfits⟩ := bracketed_reads
        (fun h => property_reads (hnested h)) property_refuses (.inr (.inl rfl))
        (.inr (.inl rfl)) hxs hcs hfits
      refine ⟨rest, ?_, hrest, hfits⟩
      simp [hopen, primary, hread, Outcome.map, Outcome.andThen]
  | group he =>
      rw [List.cons_append, List.cons_append, List.append_assoc] at hcs
      obtain ⟨inner, hopen, hinner, hdepth, hfits⟩ := lexes_open (.inr (.inr rfl)) hcs hfits
      have hstops : Stops (.mark ')' :: us) := by
        rintro t ⟨⟩
        decide
      obtain ⟨mid, hread, hmid, hfits, hskip⟩ :=
        Reads.padded (hnested hdepth) he hinner hstops hfits
      obtain ⟨rest, hclose, hrest, hfits⟩ := lexes_close (.inr (.inr rfl)) hmid hfits
      rw [hskip] at hclose
      refine ⟨rest, ?_, hrest, hfits⟩
      simp [hopen, primary, hread, hclose, char, Outcome.require, Outcome.map, Outcome.andThen]

theorem head_of_marks {allowed : List Char} {cs : List Char} {us : List Token}
    (hus : ∀ t ∈ us.head?, t ∈ allowed.map Token.mark) (hcs : Lexes cs us) :
    ∀ c ∈ (skipBlanks cs).head?, c ∈ allowed := by
  cases us with
  | nil =>
      rw [lexes_nil.1 hcs]
      rintro c ⟨⟩
  | cons t us =>
      obtain ⟨m, hm, rfl⟩ := List.mem_map.1 (hus t rfl)
      obtain ⟨mid, hmid, -⟩ := lexes_mark hcs
      rw [hmid]
      rintro c ⟨⟩
      exact hm

theorem suffixes_other {cs : List Char}
    (h : ∀ c ∈ (skipBlanks cs).head?, c ∈ ['+', ')', ']', '}', ',']) (fuel : Nat) (base : Expr) :
    suffixes nested fuel base cs = .done base cs := by
  cases fuel with
  | zero => rfl
  | succ fuel =>
      rw [suffixes]
      split
      · rename_i hpoint
        rw [hpoint] at h
        exact absurd (h _ rfl) (by decide)
      · rename_i hopen
        rw [hopen] at h
        exact absurd (h _ rfl) (by decide)
      · rfl

theorem operands_other {cs : List Char} (h : ∀ c ∈ (skipBlanks cs).head?, c ∈ [')', ']', '}', ','])
    (fuel : Nat) (left : Expr) : operands nested fuel left cs = .done left cs := by
  cases fuel with
  | zero => rfl
  | succ fuel =>
      rw [operands]
      split
      · rename_i hplus
        rw [hplus] at h
        exact absurd (h _ rfl) (by decide)
      · rfl

theorem name?_of_read? {cs rest : List Char} {s : String}
    (h : Token.read? cs = some (.name s, rest)) : name? cs = some (s, rest) := by
  obtain ⟨_, _, -, -, hread⟩ := read?_inv h
  exact hread

theorem suffixes_reads (hnested : depth < maxNesting → Reads (depth + 1) nested E Stops)
    (hrefuses : Refuses nested closers) {base e : Expr} {ts us : List Token}
    (hts : Suffixes E base ts e) (hus : StopsOperand us) {fuel : Nat} (hfuel : ts.length ≤ fuel)
    {cs : List Char} (hcs : Lexes cs (ts ++ us)) (hfits : Fits depth cs) :
    ∃ rest, suffixes nested fuel base cs = .done e rest ∧ Lexes rest us ∧ Fits depth rest := by
  -- every suffix is at least one token, so the fuel lasts
  induction hts generalizing fuel cs with
  | nil => exact ⟨cs, suffixes_other (head_of_marks hus hcs) fuel _, hcs, hfits⟩
  | @member base e name ts _ ih =>
      simp only [List.cons_append, List.length_cons] at hcs hfuel
      have hpos : fuel ≠ 0 := by omega
      obtain ⟨fuel, rfl⟩ := Nat.exists_eq_add_one_of_ne_zero hpos
      obtain ⟨mid, hpoint, hmid, hfits⟩ := lexes_plain (by decide) hcs hfits
      obtain ⟨mid', hname, hmid', hfits⟩ := lexes_token hmid hfits fun _ => nofun
      have hmany : ts.length ≤ fuel := by omega
      obtain ⟨rest, hread, hrest, hfits⟩ := ih hmany hmid' hfits
      refine ⟨rest, ?_, hrest, hfits⟩
      simp [suffixes, hpoint, name?_of_read? hname, hread, Outcome.ofOption, Outcome.require,
        Outcome.andThen]
  | @call base e ts us' arguments harguments _ ih =>
      simp only [List.cons_append, List.append_assoc, List.length_cons, List.length_append]
        at hcs hfuel
      have hpos : fuel ≠ 0 := by omega
      obtain ⟨fuel, rfl⟩ := Nat.exists_eq_add_one_of_ne_zero hpos
      obtain ⟨inner, mid, hopen, hlist, hmid, hfits⟩ := bracketed_reads hnested hrefuses
        (.inr (.inr rfl)) (.inr (.inr rfl)) harguments hcs hfits
      have hmany : ts.length ≤ fuel := by omega
      obtain ⟨rest, hread, hrest, hfits⟩ := ih hmany hmid hfits
      refine ⟨rest, ?_, hrest, hfits⟩
      simp [suffixes, hopen, hlist, hread, Outcome.andThen]

theorem postfixed_reads (hnested : depth < maxNesting → Reads (depth + 1) nested E Stops)
    (hrefuses : Refuses nested (.ellipsis :: closers)) :
    Reads depth (postfixed nested) (Postfix E) StopsOperand := by
  intro ts x hts cs us hcs hstops hfits
  obtain ⟨hbase, hsuffixes⟩ := hts
  rw [List.append_assoc] at hcs
  obtain ⟨mid, hread, hmid, hfits⟩ := primary_reads hnested hrefuses hbase hcs trivial hfits
  obtain ⟨rest, hmore, hrest, hfits⟩ := suffixes_reads hnested
    (fun ht => hrefuses (List.mem_cons_of_mem _ ht)) hsuffixes hstops hmid.length_left_le
    hmid hfits
  refine ⟨rest, ?_, hrest, hfits⟩
  simp only [postfixed, hread, Outcome.andThen]
  exact hmore

theorem Operands.stops {left e : Expr} {ts us : List Token} (h : Operands E left ts e)
    (hus : Stops us) : StopsOperand (ts ++ us) := by
  cases h with
  | nil => exact fun t ht => List.mem_cons_of_mem _ (hus t ht)
  | cons _ _ =>
      rintro t ⟨⟩
      exact List.mem_cons_self

theorem operands_reads (hnested : depth < maxNesting → Reads (depth + 1) nested E Stops)
    (hrefuses : Refuses nested (.ellipsis :: closers)) {left e : Expr} {ts us : List Token}
    (hts : Operands E left ts e) (hus : Stops us) {fuel : Nat} (hfuel : ts.length ≤ fuel)
    {cs : List Char} (hcs : Lexes cs (ts ++ us)) (hfits : Fits depth cs) :
    ∃ rest, operands nested fuel left cs = .done e rest ∧ Lexes rest us ∧ Fits depth rest := by
  induction hts generalizing fuel cs with
  | nil => exact ⟨cs, operands_other (head_of_marks hus hcs) fuel _, hcs, hfits⟩
  | @cons left right e ts us' hright hmore ih =>
      simp only [List.cons_append, List.append_assoc, List.length_cons, List.length_append]
        at hcs hfuel
      have hpos : fuel ≠ 0 := by omega
      obtain ⟨fuel, rfl⟩ := Nat.exists_eq_add_one_of_ne_zero hpos
      obtain ⟨mid, hplus, hmid, hfits⟩ := lexes_plain (by decide) hcs hfits
      obtain ⟨mid', hoperand, hmid', hfits⟩ :=
        postfixed_reads hnested hrefuses hright hmid (hmore.stops hus) hfits
      have hmany : us'.length ≤ fuel := by omega
      obtain ⟨rest, hread, hrest, hfits⟩ := ih hmany hmid' hfits
      refine ⟨rest, ?_, hrest, hfits⟩
      simp [operands, hplus, hoperand, hread, Outcome.require, Outcome.andThen]

theorem sum_reads (hnested : depth < maxNesting → Reads (depth + 1) nested E Stops)
    (hrefuses : Refuses nested (.ellipsis :: closers)) :
    Reads depth (sum nested) (Sum E) Stops := by
  intro ts x hts cs us hcs hstops hfits
  obtain ⟨hfirst, hoperands⟩ := hts
  rw [List.append_assoc] at hcs
  obtain ⟨mid, hread, hmid, hfits⟩ :=
    postfixed_reads hnested hrefuses hfirst hcs (hoperands.stops hstops) hfits
  obtain ⟨rest, hmore, hrest, hfits⟩ :=
    operands_reads hnested hrefuses hoperands hstops hmid.length_left_le hmid hfits
  refine ⟨rest, ?_, hrest, hfits⟩
  simp only [sum, hread, Outcome.andThen]
  exact hmore

end Productions

/-- Inside so many brackets the tokens are read as the tree, the budget of the descent being what
those brackets leave of it. -/
def Readable (ts : List Token) (e : Expr) : Prop :=
  ∀ depth, depth ≤ maxNesting → ∀ {cs us}, Lexes cs (ts ++ us) → Stops us → Fits depth cs →
    ∃ rest, expression (maxNesting + 1 - depth) (skipBlanks cs) = .done e rest ∧ Lexes rest us ∧
      Fits depth rest

theorem readable_of_sum {ts : List Token} {e : Expr} (h : Sum Readable ts e) : Readable ts e := by
  intro depth hdepth cs us hcs hstops hfits
  have hnested (hlt : depth < maxNesting) :
      Reads (depth + 1) (expression (maxNesting - depth)) Readable Stops := by
    intro ts e hts cs us hcs hstops hfits
    have hread := hts (depth + 1) hlt hcs hstops hfits
    rwa [Nat.add_sub_add_right] at hread
  -- the descent spends one unit on this level and has the others for the brackets in it
  have hlevel : maxNesting + 1 - depth = maxNesting - depth + 1 := by omega
  rw [hlevel, expression]
  exact sum_reads hnested (expression_refuses _) h hcs hstops hfits

/-- **What derives a tree is read as that tree**, as long as the brackets fit. -/
theorem expression_reads : Reads 0 (expression (maxNesting + 1)) Derives Stops :=
  fun hts => hts.induction readable_of_sum 0 (Nat.zero_le _)

theorem parseChars_eq_ok {cs : List Char} {e : Expr} :
    Expr.parseChars cs = .ok e ↔ firstTooDeep maxNesting 0 none cs = none ∧
      padded (expression (maxNesting + 1)) cs = .done e [] := by
  rw [Expr.parseChars]
  cases firstTooDeep maxNesting 0 none cs with
  | some near => simp
  | none =>
      cases padded (expression (maxNesting + 1)) cs with
      | done e' rest => cases rest <;> simp
      | mismatch | fault | tooDeep => simp

/-- A text whose tokens derive a tree is parsed as it, as long as the brackets fit. -/
theorem parse_of_lexes {text : String} {ts : List Token} {e : Expr} (hlexes : Lexes text.toList ts)
    (hts : Derives ts e) (hfits : Fits 0 text.toList) : Expr.parse text = .ok e := by
  rw [← List.append_nil ts] at hlexes
  obtain ⟨rest, hread, hrest, -, hskip⟩ := expression_reads.padded hts hlexes nofun hfits
  rw [← hskip, lexes_nil.1 hrest] at hread
  exact parseChars_eq_ok.2 ⟨hfits, hread⟩

/-- **The parser accepts exactly the grammar**, up to the limit on brackets: a text parses to a
tree if and only if it derives the tree and no beginning of it leaves more brackets open than the
limit. -/
theorem parse_eq_ok_iff (text : String) (e : Expr) :
    Expr.parse text = .ok e ↔ TextDerives text.toList e ∧
      ∀ p, p <+: text.toList → unclosed p ≤ maxNesting := by
  rw [Expr.parse, parseChars_eq_ok, ← firstTooDeep_iff]
  constructor
  · rintro ⟨hfits, hread⟩
    obtain ⟨ts, hts, hspan⟩ := Sound.padded (expression_sound _) hread
    have hlexes := hspan [] (lexes_nil.2 rfl)
    rw [List.append_nil] at hlexes
    exact ⟨⟨ts, hlexes, hts⟩, hfits⟩
  · rintro ⟨⟨ts, hlexes, hts⟩, hfits⟩
    rw [← List.append_nil ts] at hlexes
    obtain ⟨rest, hread, hrest, -, hskip⟩ :=
      expression_reads.padded hts hlexes nofun hfits
    rw [← hskip, lexes_nil.1 hrest] at hread
    exact ⟨hfits, hread⟩

end SchemaWeave.Grammar
