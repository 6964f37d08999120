import SchemaWeave.Proofs.Grammar.Lexing

/-!
What the parser accepts, the grammar derives. `Sound` is the contract of every parser: the text that
it takes falls into tokens that derive what it answers, and the tokens of the rest of the text
follow on them. The contract goes up through the combinators, whatever reads what brackets enclose,
and `expression` gives it to itself one bracket further out.
-/

namespace SchemaWeave.Grammar

open SchemaWeave.Expr (Parser Outcome Expected padded char moreItems commaSeparated bracketed
  element keyed property primary suffixes postfixed operands sum expression skipBlanks stripDots
  name? key? ofName Numeral)

variable {α β : Type}

section Outcomes

variable {rest : List Char}

theorem andThen_done {o : Outcome α} {next : α → Parser β} {y : β}
    (h : o.andThen next = .done y rest) : ∃ x mid, o = .done x mid ∧ next x mid = .done y rest := by
  cases o with
  | done x mid => exact ⟨x, mid, rfl, h⟩
  | mismatch | fault | tooDeep => cases h

theorem map_done {o : Outcome α} {f : α → β} {y : β} (h : o.map f = .done y rest) :
    ∃ x, o = .done x rest ∧ f x = y := by
  obtain ⟨x, mid, ho, heq⟩ := andThen_done h
  cases heq
  exact ⟨x, ho, rfl⟩

theorem require_done {o : Outcome α} {expected : Expected} {x : α} :
    o.require expected = .done x rest ↔ o = .done x rest := by
  cases o <;> simp [Outcome.require]

theorem orElse_done {o : Outcome α} {other : Unit → Outcome α} {x : α}
    (h : o.orElse other = .done x rest) : o = .done x rest ∨ other () = .done x rest := by
  cases o with
  | mismatch => exact .inr h
  | done | fault | tooDeep => exact .inl h

theorem ofOption_done {found : Option (α × List Char)} {cs : List Char} {x : α}
    (h : Outcome.ofOption cs found = .done x rest) : found = some (x, rest) := by
  cases found with
  | none => cases h
  | some found =>
      cases h
      rfl

theorem char_done {c : Char} {cs : List Char} :
    char c cs = .done () rest ↔ cs = c :: rest := by
  cases cs with
  | nil => simp [char]
  | cons d cs =>
      rw [char]
      split <;> simp_all

end Outcomes

/-- The text from one place to another consists of these tokens. -/
def Spans (cs : List Char) (ts : List Token) (rest : List Char) : Prop :=
  ∀ us, Lexes rest us → Lexes cs (ts ++ us)

/-- What the parser takes derives what it answers. -/
def Sound (p : Parser α) (P : List Token → α → Prop) : Prop :=
  ∀ {cs x rest}, p cs = .done x rest → ∃ ts, P ts x ∧ Spans cs ts rest

namespace Spans

variable {cs mid rest : List Char} {ts us : List Token}

theorem nil (cs : List Char) : Spans cs [] cs := fun _ h => h

theorem append (h : Spans cs ts mid) (h' : Spans mid us rest) : Spans cs (ts ++ us) rest := by
  intro vs hvs
  rw [List.append_assoc]
  exact h _ (h' _ hvs)

theorem token {t : Token} (h : Token.read? cs = some (t, rest)) : Spans cs [t] rest := by
  intro us hus
  refine lexes_cons.2 ⟨rest, ?_, hus⟩
  rw [skipBlanks_of_read? h, h]

theorem cons {t : Token} (h : Token.read? cs = some (t, mid)) (h' : Spans mid ts rest) :
    Spans cs (t :: ts) rest := (token h).append h'

theorem mark {c : Char} (hc : c ∈ marks) (hdot : c ≠ '.') (cs : List Char) :
    Spans (c :: cs) [.mark c] cs := token (read?_of_mark hc hdot cs)

theorem of_skipBlanks (h : Spans (skipBlanks cs) ts rest) : Spans cs ts rest :=
  fun us hus => lexes_skipBlanks.1 (h us hus)

theorem to_skipBlanks (h : Spans cs ts rest) : Spans cs ts (skipBlanks rest) :=
  fun us hus => h us (lexes_skipBlanks.1 hus)

end Spans

theorem Sound.padded {p : Parser α} {P : List Token → α → Prop} (hp : Sound p P) :
    Sound (padded p) P := by
  intro cs x rest h
  obtain ⟨y, mid, hy, heq⟩ := andThen_done h
  cases heq
  obtain ⟨ts, hts, hspan⟩ := hp hy
  exact ⟨ts, hts, hspan.of_skipBlanks.to_skipBlanks⟩

section Lists

variable {item : Parser α} {P : List Token → α → Prop}

theorem moreItems_other {cs : List Char} (h : cs.head? ≠ some ',') (fuel : Nat) :
    moreItems item fuel cs = .done [] cs := by
  unfold moreItems
  split
  · rfl
  · exact absurd rfl h
  · rfl

theorem moreItems_sound (hitem : Sound item P) (fuel : Nat) {cs rest : List Char} {xs : List α}
    (h : moreItems item fuel cs = .done xs rest) : ∃ ts, MoreItems P ts xs ∧ Spans cs ts rest := by
  induction fuel generalizing cs xs with
  | zero =>
      cases h
      exact ⟨[], .nil, .nil _⟩
  | succ fuel ih =>
      by_cases hcomma : cs.head? = some ','
      · obtain ⟨more, rfl⟩ := List.head?_eq_some_iff.1 hcomma
        rw [moreItems] at h
        split at h
        · -- the comma is left to the closing bracket
          cases h
          exact ⟨[], .nil, .nil _⟩
        · cases h
        · cases h
        · rename_i x mid hx
          obtain ⟨xs', hxs, rfl⟩ := map_done h
          obtain ⟨ts, hts, hspan⟩ := hitem hx
          obtain ⟨us, hus, hspan'⟩ := ih hxs
          exact ⟨_, .cons hts hus, ((Spans.mark (by decide) (by decide) more).append hspan).append
            hspan'⟩
      · rw [moreItems_other hcomma] at h
        cases h
        exact ⟨[], .nil, .nil _⟩

theorem commaSeparated_sound (hitem : Sound item P) {cs rest : List Char} {xs : List α}
    (h : commaSeparated item cs = .done xs rest) : ∃ ts, Items P ts xs ∧ Spans cs ts rest := by
  rw [commaSeparated] at h
  split at h
  · cases h
    exact ⟨[], .nil, .nil _⟩
  · cases h
  · cases h
  · rename_i x mid hx
    obtain ⟨xs', hxs, rfl⟩ := map_done h
    obtain ⟨ts, hts, hspan⟩ := hitem hx
    obtain ⟨us, hus, hspan'⟩ := moreItems_sound hitem mid.length hxs
    exact ⟨_, .cons hts hus, hspan.append hspan'⟩

theorem bracketed_sound (hitem : Sound item P) {closing : Char} (hclosing : closing ∈ marks)
    (hdot : closing ≠ '.') {cs rest : List Char} {xs : List α}
    (h : bracketed item closing cs = .done xs rest) :
    ∃ ts, Entries P ts xs ∧ Spans cs (ts ++ [.mark closing]) rest := by
  obtain ⟨xs', mid, hxs, h⟩ := andThen_done h
  obtain ⟨⟨⟩, hchar, rfl⟩ := map_done h
  obtain ⟨ts, hts, hspan⟩ := commaSeparated_sound hitem.padded hxs
  have hclose := char_done.1 (require_done.1 hchar)
  have hend := Spans.mark hclosing hdot rest
  split at hclose
  · rename_i more hcomma
    refine ⟨_, .comma hts, ?_⟩
    have hmore : Spans mid [.mark ','] (skipBlanks more) := by
      apply Spans.of_skipBlanks
      rw [hcomma]
      exact (Spans.mark (by decide) (by decide) more).to_skipBlanks
    rw [hclose] at hmore
    exact (hspan.append hmore).append hend
  · refine ⟨_, .exact hts, hspan.append (Spans.of_skipBlanks ?_)⟩
    rw [hclose]
    exact hend

end Lists

section Productions

variable {nested : Parser Expr} {E : List Token → Expr → Prop}

theorem element_sound (hnested : Sound nested E) : Sound (element nested) (ElementOf E) := by
  intro cs x rest h
  rw [element] at h
  split at h
  · rename_i more hdots
    obtain ⟨e, he, rfl⟩ := map_done h
    obtain ⟨ts, hts, hspan⟩ := hnested.padded he
    exact ⟨_, .spread hts, (Spans.cons (read?_of_dots hdots) hspan).of_skipBlanks⟩
  · obtain ⟨e, he, rfl⟩ := map_done h
    obtain ⟨ts, hts, hspan⟩ := hnested.padded he
    exact ⟨_, .item hts, hspan⟩

theorem key?_sound {cs rest : List Char} {key : String} (h : key? cs = some (key, rest)) :
    ∃ t, Key t key ∧ Token.read? cs = some (t, rest) := by
  rw [key?] at h
  split at h
  · rename_i hstring
    cases h
    exact ⟨_, .string, read?_of_string hstring⟩
  · split at h
    · rename_i hname
      cases h
      exact ⟨_, .name, read?_of_name hname⟩
    · obtain ⟨⟨n, rest'⟩, hn, heq⟩ := Option.map_eq_some_iff.1 h
      cases heq
      exact ⟨_, .numeral, read?_of_numeral hn⟩

theorem keyed_sound (hnested : Sound nested E) : Sound (keyed nested) (PropertyOf E) := by
  intro cs x rest h
  obtain ⟨key, mid, hkey, h⟩ := andThen_done h
  obtain ⟨⟨⟩, mid', hcolon, h⟩ := andThen_done h
  obtain ⟨e, he, rfl⟩ := map_done h
  have hreads : Sound (fun cs => Outcome.ofOption cs (key? cs)) fun ts key =>
      ∃ t, ts = [t] ∧ Key t key := by
    intro cs key rest h
    obtain ⟨t, ht, hread⟩ := key?_sound (ofOption_done h)
    exact ⟨[t], ⟨t, rfl, ht⟩, .token hread⟩
  obtain ⟨_, ⟨t, rfl, ht⟩, hspan⟩ := hreads.padded hkey
  obtain ⟨ts, hts, hspan'⟩ := hnested.padded (require_done.1 he)
  rw [char_done.1 hcolon] at hspan
  exact ⟨_, .entry ht hts,
    hspan.append ((Spans.mark (by decide) (by decide) mid').append hspan')⟩

theorem property_sound (hnested : Sound nested E) : Sound (property nested) (PropertyOf E) := by
  intro cs x rest h
  rw [property] at h
  split at h
  · rename_i more hdots
    rcases orElse_done h with h | h
    · obtain ⟨e, he, rfl⟩ := map_done h
      obtain ⟨ts, hts, hspan⟩ := hnested.padded he
      exact ⟨_, .spread hts, (Spans.cons (read?_of_dots hdots) hspan).of_skipBlanks⟩
    · exact keyed_sound hnested h
  · exact keyed_sound hnested h

theorem toLiteral_eq (n : Numeral) :
    n.toLiteral = if IsInteger n then .integer (wholeValue n) else n.toFloat := by
  have hiff : n.fraction.isNone ∧ n.exponent.isNone ∧ Number.FitsInt64 (wholeValue n) ↔
      IsInteger n := by
    simp only [IsInteger, Option.isNone_iff_eq_none]
  have hliteral : n.toLiteral = if n.fraction.isNone ∧ n.exponent.isNone ∧
      Number.FitsInt64 (wholeValue n) then .integer (wholeValue n) else n.toFloat := rfl
  rw [hliteral]
  exact ite_congr (propext hiff) (fun _ => rfl) fun _ => rfl

theorem primary_numeral (n : Numeral) : Primary E [.numeral n] (.literal n.toLiteral) := by
  rw [toLiteral_eq]
  split
  · exact .integer ‹_›
  · exact .float ‹_›

theorem primary_name (text : String) : Primary E [.name text] (ofName text) := by
  rw [ofName]
  split
  · exact .null ‹_›
  · split
    · rename_i h
      exact h ▸ .true
    · split
      · rename_i h
        exact h ▸ .false
      · refine .identifier ?_
        simp_all

theorem primary_sound (hnested : Sound nested E) : Sound (primary nested) (Primary E) := by
  intro cs x rest h
  unfold primary at h
  split at h
  · rename_i more
    obtain ⟨xs, hxs, rfl⟩ := map_done h
    obtain ⟨ts, hts, hspan⟩ := bracketed_sound (element_sound hnested) (by decide) (by decide) hxs
    exact ⟨_, .array hts, (Spans.mark (by decide) (by decide) more).append hspan⟩
  · rename_i more
    obtain ⟨xs, hxs, rfl⟩ := map_done h
    obtain ⟨ts, hts, hspan⟩ := bracketed_sound (property_sound hnested) (by decide) (by decide) hxs
    exact ⟨_, .object hts, (Spans.mark (by decide) (by decide) more).append hspan⟩
  · rename_i more
    split at h
    · -- a group that does not match is no other form either
      cases h
    · obtain ⟨e, mid, he, h⟩ := andThen_done h
      obtain ⟨⟨⟩, hclose, rfl⟩ := map_done h
      obtain ⟨ts, hts, hspan⟩ := hnested.padded he
      rw [char_done.1 (require_done.1 hclose)] at hspan
      have hend := Spans.mark (c := ')') (by decide) (by decide) rest
      exact ⟨_, .group hts,
        (Spans.mark (by decide) (by decide) more).append (hspan.append hend)⟩
  · rcases orElse_done h with h | h
    · obtain ⟨⟨n, rest'⟩, hn, heq⟩ := Option.map_eq_some_iff.1 (ofOption_done h)
      cases heq
      exact ⟨_, primary_numeral n, .token (read?_of_numeral hn)⟩
    · rcases orElse_done h with h | h
      · obtain ⟨⟨s, rest'⟩, hs, heq⟩ := Option.map_eq_some_iff.1 (ofOption_done h)
        cases heq
        exact ⟨_, .string, .token (read?_of_string hs)⟩
      · obtain ⟨s, hs, rfl⟩ := map_done h
        exact ⟨_, primary_name s, .token (read?_of_name (ofOption_done hs))⟩

/-- A point that a name follows, perhaps after blanks, is a token of its own. -/
theorem read?_of_member {cs rest : List Char} {s : String}
    (h : name? (skipBlanks cs) = some (s, rest)) :
    Token.read? ('.' :: cs) = some (.mark '.', cs) := by
  cases hdots : stripDots ('.' :: cs) with
  | none => rw [Token.read?, if_pos (by decide), hdots]
  | some more =>
      obtain ⟨-, rfl⟩ := List.cons.inj (stripDots_eq_some.1 hdots)
      cases h

theorem suffixes_sound (hnested : Sound nested E) (fuel : Nat) {base e : Expr}
    {cs rest : List Char} (h : suffixes nested fuel base cs = .done e rest) :
    ∃ ts, Suffixes E base ts e ∧ Spans cs ts rest := by
  induction fuel generalizing base cs with
  | zero =>
      cases h
      exact ⟨[], .nil, .nil _⟩
  | succ fuel ih =>
      rw [suffixes] at h
      split at h
      · rename_i more hcs
        obtain ⟨name, mid, hname, h⟩ := andThen_done h
        have hname := ofOption_done (require_done.1 hname)
        obtain ⟨ts, hts, hspan⟩ := ih h
        have hmember := (Spans.token (read?_of_name hname)).of_skipBlanks
        have hpoint := Spans.token (read?_of_member hname)
        rw [← hcs] at hpoint
        exact ⟨_, .member hts, hpoint.of_skipBlanks.append (hmember.append hspan)⟩
      · rename_i more hcs
        obtain ⟨arguments, mid, harguments, h⟩ := andThen_done h
        obtain ⟨us, hus, hspan⟩ := bracketed_sound hnested (by decide) (by decide) harguments
        obtain ⟨ts, hts, hspan'⟩ := ih h
        have hopen := Spans.mark (c := '(') (by decide) (by decide) more
        rw [← hcs] at hopen
        have hall := (hopen.of_skipBlanks.append hspan).append hspan'
        refine ⟨_, .call hus hts, ?_⟩
        simpa using hall
      · cases h
        exact ⟨[], .nil, .nil _⟩

theorem postfixed_sound (hnested : Sound nested E) : Sound (postfixed nested) (Postfix E) := by
  intro cs x rest h
  obtain ⟨base, mid, hbase, h⟩ := andThen_done h
  obtain ⟨ts, hts, hspan⟩ := primary_sound hnested hbase
  obtain ⟨us, hus, hspan'⟩ := suffixes_sound hnested _ h
  exact ⟨_, .mk hts hus, hspan.append hspan'⟩

theorem operands_sound (hnested : Sound nested E) (fuel : Nat) {left e : Expr}
    {cs rest : List Char} (h : operands nested fuel left cs = .done e rest) :
    ∃ ts, Operands E left ts e ∧ Spans cs ts rest := by
  induction fuel generalizing left cs with
  | zero =>
      cases h
      exact ⟨[], .nil, .nil _⟩
  | succ fuel ih =>
      rw [operands] at h
      split at h
      · rename_i more hcs
        obtain ⟨right, mid, hright, h⟩ := andThen_done h
        obtain ⟨ts, hts, hspan⟩ := postfixed_sound hnested (require_done.1 hright)
        obtain ⟨us, hus, hspan'⟩ := ih h
        have hplus := Spans.mark (c := '+') (by decide) (by decide) more
        rw [← hcs] at hplus
        exact ⟨_, .cons hts hus,
          (hplus.of_skipBlanks.append hspan.of_skipBlanks).append hspan'⟩
      · cases h
        exact ⟨[], .nil, .nil _⟩

theorem sum_sound (hnested : Sound nested E) : Sound (sum nested) (Sum E) := by
  intro cs x rest h
  obtain ⟨first, mid, hfirst, h⟩ := andThen_done h
  obtain ⟨ts, hts, hspan⟩ := postfixed_sound hnested hfirst
  obtain ⟨us, hus, hspan'⟩ := operands_sound hnested _ h
  exact ⟨_, .mk hts hus, hspan.append hspan'⟩

end Productions

/-- What the parser of expressions takes derives the tree that it answers. -/
theorem expression_sound (depth : Nat) : Sound (expression depth) Derives := by
  induction depth with
  | zero =>
      intro cs e rest h
      -- what the outermost bracket encloses cannot be read any more
      have hnone : Sound (fun _ => .tooDeep : Parser Expr) Derives := fun h => by cases h
      obtain ⟨ts, hts, hspan⟩ := sum_sound hnone h
      exact ⟨ts, .expression hts, hspan⟩
  | succ depth ih =>
      intro cs e rest h
      obtain ⟨ts, hts, hspan⟩ := sum_sound ih h
      exact ⟨ts, .expression hts, hspan⟩

end SchemaWeave.Grammar
