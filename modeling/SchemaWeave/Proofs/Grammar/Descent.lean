import SchemaWeave.Proofs.Grammar.Nesting
import SchemaWeave.Proofs.Grammar.Soundness

/-!
How deep the descent of the parser goes. `deepest` counts the brackets that a descent has open at
once: an array, an object, a group or a list of arguments, from its opening bracket until it is
settled, also where it fails and another form is tried. The scan of brackets sees every bracket
that the descent opens, so on a text that it accepts no descent has more open than the limit, and
all budgets from the limit on give one answer (`expression_bounded`). A text that it refuses is
refused at the bracket that would be one too many, whatever a descent would answer
(`parse_guarded`).
-/

namespace SchemaWeave.Grammar

open SchemaWeave.Expr (Parser Outcome Expected Complaint ParseError padded char moreItems
  commaSeparated bracketed element keyed property primary suffixes postfixed operands sum
  expression skipBlanks stripDots name? string? key? numeral? ofName Numeral InString firstTooDeep
  maxNesting nearLength)

variable {α β : Type}

/-! ### Brackets that a descent opens

Each production goes with the brackets that it has open at once. `deep` is that count for what
brackets enclose. -/

section Counts

/-- What is opened after a success. -/
def openedAfter (o : Outcome α) (next : List Char → Nat) : Nat :=
  match o with
  | .done _ rest => next rest
  | .mismatch _ | .fault _ _ | .tooDeep => 0

def paddedDepth (deep : List Char → Nat) (cs : List Char) : Nat := deep (skipBlanks cs)

def moreItemsDepth (item : Parser α) (deep : List Char → Nat) : Nat → List Char → Nat
  | 0, _ => 0
  | fuel + 1, ',' :: rest =>
    max (deep rest) (openedAfter (item rest) (moreItemsDepth item deep fuel))
  | _ + 1, _ => 0

def commaSeparatedDepth (item : Parser α) (deep : List Char → Nat) (cs : List Char) : Nat :=
  max (deep cs) (openedAfter (item cs) fun rest => moreItemsDepth item deep rest.length rest)

/-- The bracket itself, and what its items open. -/
def bracketedDepth (item : Parser α) (deep : List Char → Nat) (cs : List Char) : Nat :=
  commaSeparatedDepth (padded item) (paddedDepth deep) cs + 1

variable (nested : Parser Expr) (deep : List Char → Nat)

def elementDepth (cs : List Char) : Nat :=
  match stripDots (skipBlanks cs) with
  | some rest => paddedDepth deep rest
  | none => paddedDepth deep cs

def keyedDepth (cs : List Char) : Nat :=
  openedAfter (padded (fun cs => .ofOption cs (key? cs)) cs) fun rest =>
    openedAfter (char ':' rest) (paddedDepth deep)

def propertyDepth (cs : List Char) : Nat :=
  match stripDots (skipBlanks cs) with
  | some rest =>
    max (paddedDepth deep rest)
      (match padded nested rest with
      | .mismatch _ => keyedDepth deep cs
      | _ => 0)
  | none => keyedDepth deep cs

def primaryDepth (cs : List Char) : Nat :=
  match cs with
  | '[' :: rest => bracketedDepth (element nested) (elementDepth deep) rest
  | '{' :: rest => bracketedDepth (property nested) (propertyDepth nested deep) rest
  | '(' :: rest => paddedDepth deep rest + 1
  | _ => 0

def suffixesDepth : Nat → List Char → Nat
  | 0, _ => 0
  | fuel + 1, cs =>
    match skipBlanks cs with
    | '.' :: rest =>
      openedAfter (.ofOption (skipBlanks rest) (name? (skipBlanks rest))) (suffixesDepth fuel)
    | '(' :: rest =>
      max (bracketedDepth nested deep rest)
        (openedAfter (bracketed nested ')' rest) (suffixesDepth fuel))
    | _ => 0

def postfixedDepth (cs : List Char) : Nat :=
  max (primaryDepth nested deep cs)
    (openedAfter (primary nested cs) fun rest => suffixesDepth nested deep rest.length rest)

def operandsDepth : Nat → List Char → Nat
  | 0, _ => 0
  | fuel + 1, cs =>
    match skipBlanks cs with
    | '+' :: rest =>
      max (postfixedDepth nested deep (skipBlanks rest))
        (openedAfter (postfixed nested (skipBlanks rest)) (operandsDepth fuel))
    | _ => 0

def sumDepth (cs : List Char) : Nat :=
  max (postfixedDepth nested deep cs)
    (openedAfter (postfixed nested cs) fun rest => operandsDepth nested deep rest.length rest)

end Counts

theorem suffixesDepth_other {nested : Parser Expr} {deep : List Char → Nat} {cs : List Char}
    (hpoint : ∀ rest, skipBlanks cs ≠ '.' :: rest) (hopen : ∀ rest, skipBlanks cs ≠ '(' :: rest)
    (fuel : Nat) : suffixesDepth nested deep fuel cs = 0 := by
  cases fuel with
  | zero => rfl
  | succ fuel =>
      rw [suffixesDepth]
      split
      · exact absurd ‹_› (hpoint _)
      · exact absurd ‹_› (hopen _)
      · rfl

theorem operandsDepth_other {nested : Parser Expr} {deep : List Char → Nat} {cs : List Char}
    (hplus : ∀ rest, skipBlanks cs ≠ '+' :: rest) (fuel : Nat) :
    operandsDepth nested deep fuel cs = 0 := by
  cases fuel with
  | zero => rfl
  | succ fuel =>
      rw [operandsDepth]
      split
      · exact absurd ‹_› (hplus _)
      · rfl

/-- The most brackets that the descent with a budget has open at once. -/
def deepest : Nat → List Char → Nat
  | 0 => sumDepth (fun _ => .tooDeep) fun _ => 0
  | budget + 1 => sumDepth (expression budget) (deepest budget)

/-- The group is the third bracket that is open; the object comes after the call is closed. -/
example : deepest 5 "[f((a)), \x7b\x7d]".toList = 3 := by cbv

/-- A bracket counts as soon as it is open, whether or not it is closed. -/
example : deepest 5 "[[\x7b".toList = 3 := by cbv

/-! ### What the scan allows is settled -/

/-- Two runs end alike, neither for want of budget, and the scan allows what is left inside so many
brackets. -/
inductive Settles (depth : Nat) : Outcome α → Outcome α → Prop where
  | done {x : α} {rest : List Char} : Fits depth rest → Settles depth (.done x rest) (.done x rest)
  | mismatch {rest : List Char} : Settles depth (.mismatch rest) (.mismatch rest)
  | fault {expected : Expected} {rest : List Char} :
      Settles depth (.fault expected rest) (.fault expected rest)

namespace Settles

variable {depth depth' limit : Nat} {o o' : Outcome α}

theorem andThen (h : Settles depth o o') {next next' : α → Parser β}
    (hnext : ∀ x rest, Fits depth rest → Settles depth' (next x rest) (next' x rest)) :
    Settles depth' (o.andThen next) (o'.andThen next') := by
  cases h with
  | done hrest => exact hnext _ _ hrest
  | mismatch => exact .mismatch
  | fault => exact .fault

theorem map (h : Settles depth o o') (f : α → β) : Settles depth (o.map f) (o'.map f) :=
  h.andThen fun _ _ hrest => .done hrest

theorem require (h : Settles depth o o') (expected : Expected) :
    Settles depth (o.require expected) (o'.require expected) := by
  cases h with
  | done hrest => exact .done hrest
  | mismatch => exact .fault
  | fault => exact .fault

theorem orElse (h : Settles depth o o') {other other' : Unit → Outcome α}
    (hother : Settles depth (other ()) (other' ())) :
    Settles depth (o.orElse other) (o'.orElse other') := by
  cases h with
  | done hrest => exact .done hrest
  | mismatch => exact hother
  | fault => exact .fault

theorem ofOption {cs : List Char} {found : Option (α × List Char)}
    (h : ∀ x rest, found = some (x, rest) → Fits depth rest) :
    Settles depth (Outcome.ofOption cs found) (Outcome.ofOption cs found) := by
  cases found with
  | none => exact .mismatch
  | some found => exact .done (h _ _ rfl)

/-- What is opened after a run is opened where the scan allows it. -/
theorem openedAfter_le (h : Settles depth o o') {next : List Char → Nat}
    (hnext : ∀ rest, Fits depth rest → depth' + next rest ≤ limit) (hlimit : depth' ≤ limit) :
    depth' + openedAfter o next ≤ limit := by
  cases h with
  | done hrest => exact hnext _ hrest
  | mismatch => exact hlimit
  | fault => exact hlimit

end Settles

/-- On what the scan allows inside so many brackets, two parsers settle alike, and the brackets
that they open stay within the limit. -/
def Bounded (depth : Nat) (p p' : Parser α) (deep : List Char → Nat) : Prop :=
  ∀ cs, Fits depth cs → Settles depth (p cs) (p' cs) ∧ depth + deep cs ≤ maxNesting

theorem Bounded.padded {depth : Nat} {p p' : Parser α} {deep : List Char → Nat}
    (hp : Bounded depth p p' deep) :
    Bounded depth (padded p) (padded p') (paddedDepth deep) := by
  intro cs hfits
  obtain ⟨hsettles, hdeep⟩ := hp _ (fits_skipBlanks.2 hfits)
  exact ⟨hsettles.andThen fun _ _ hrest => .done (fits_skipBlanks.2 hrest), hdeep⟩

section Tokens

variable {depth : Nat} {cs rest : List Char}

theorem fits_rest {t : Token} (h : Token.read? cs = some (t, rest)) (ht : ∀ c, t ≠ .mark c)
    (hfits : Fits depth cs) : Fits depth rest :=
  (fits_token h (fun c hc => absurd hc (ht c)) depth).1 hfits

theorem name?_settles (hfits : Fits depth cs) :
    Settles depth (.ofOption cs (name? cs)) (.ofOption cs (name? cs)) :=
  .ofOption fun _ _ h => fits_rest (read?_of_name h) (fun _ => nofun) hfits

theorem key?_settles (hfits : Fits depth cs) :
    Settles depth (.ofOption cs (key? cs)) (.ofOption cs (key? cs)) := by
  refine .ofOption fun key rest h => ?_
  obtain ⟨t, hkey, hread⟩ := key?_sound h
  refine fits_rest hread ?_ hfits
  rintro c rfl
  cases hkey

theorem char_settles {c : Char} (hfits : ∀ rest, cs = c :: rest → Fits depth rest) :
    Settles depth (char c cs) (char c cs) := by
  cases cs with
  | nil => exact .mismatch
  | cons d rest =>
      rw [char]
      split
      · rename_i h
        exact .done (hfits rest (by rw [h]))
      · exact .mismatch

end Tokens

section Lists

variable {depth : Nat} {item item' : Parser α} {deep : List Char → Nat}

theorem Bounded.moreItems (hitem : Bounded depth item item' deep) (hdepth : depth ≤ maxNesting)
    (fuel : Nat) :
    Bounded depth (moreItems item fuel) (moreItems item' fuel) (moreItemsDepth item deep fuel) := by
  induction fuel with
  | zero => exact fun cs hfits => ⟨.done hfits, hdepth⟩
  | succ fuel ih =>
      intro cs hfits
      by_cases hcomma : cs.head? = some ','
      · obtain ⟨more, rfl⟩ := List.head?_eq_some_iff.1 hcomma
        obtain ⟨hsettles, hdeep⟩ := hitem more ((fits_cons (by decide) depth more).1 hfits)
        have hrest := hsettles.openedAfter_le (fun rest hrest => (ih rest hrest).2) hdepth
        refine ⟨?_, ?_⟩
        · rw [Expr.moreItems, Expr.moreItems]
          revert hsettles
          generalize item more = o, item' more = o'
          intro hsettles
          cases hsettles with
          | done hrest => exact (ih _ hrest).1.map _
          | mismatch => exact .done hfits
          | fault => exact .fault
        · rw [moreItemsDepth]
          omega
      · have hnone : moreItemsDepth item deep (fuel + 1) cs = 0 := by
          unfold moreItemsDepth
          split
          · rfl
          · exact absurd rfl hcomma
          · rfl
        rw [moreItems_other hcomma, moreItems_other hcomma, hnone]
        exact ⟨.done hfits, hdepth⟩

theorem Bounded.commaSeparated (hitem : Bounded depth item item' deep)
    (hdepth : depth ≤ maxNesting) :
    Bounded depth (commaSeparated item) (commaSeparated item') (commaSeparatedDepth item deep) := by
  intro cs hfits
  obtain ⟨hsettles, hdeep⟩ := hitem cs hfits
  have hrest := hsettles.openedAfter_le
    (fun rest hrest => (hitem.moreItems hdepth rest.length rest hrest).2) hdepth
  refine ⟨?_, ?_⟩
  · rw [Expr.commaSeparated, Expr.commaSeparated]
    revert hsettles
    generalize item cs = o, item' cs = o'
    intro hsettles
    cases hsettles with
    | done hrest => exact (hitem.moreItems hdepth _ _ hrest).1.map _
    | mismatch => exact .done hfits
    | fault => exact .fault
  · rw [commaSeparatedDepth]
    omega

/-- After its opening bracket a list goes on one level further in, up to its closing one. -/
theorem Bounded.bracketed (hitem : Bounded (depth + 1) item item' deep)
    (hdepth : depth < maxNesting) {closing : Char}
    (hclosing : closing = ']' ∨ closing = '}' ∨ closing = ')') {cs : List Char}
    (hfits : Fits (depth + 1) cs) :
    Settles depth (bracketed item closing cs) (bracketed item' closing cs) ∧
      depth + bracketedDepth item deep cs ≤ maxNesting := by
  obtain ⟨hsettles, hdeep⟩ := hitem.padded.commaSeparated hdepth cs hfits
  have hend {rest : List Char} (hrest : Fits (depth + 1) rest) :
      Settles depth (char closing rest) (char closing rest) := by
    refine char_settles ?_
    rintro rest rfl
    exact (fits_close hclosing).1 hrest
  refine ⟨hsettles.andThen fun values rest hrest => ?_, ?_⟩
  · have hrest := fits_skipBlanks.2 hrest
    refine Settles.map (Settles.require (hend ?_) _) _
    split
    · rename_i more hcomma
      rw [hcomma, fits_cons (by decide)] at hrest
      exact fits_skipBlanks.2 hrest
    · exact hrest
  · rw [bracketedDepth]
    omega

end Lists

section Productions

variable {depth : Nat} {nested nested' : Parser Expr} {deep : List Char → Nat}

theorem element_bounded (hnested : Bounded depth nested nested' deep) :
    Bounded depth (element nested) (element nested') (elementDepth deep) := by
  intro cs hfits
  unfold element elementDepth
  cases hdots : stripDots (skipBlanks cs) with
  | none =>
      obtain ⟨hsettles, hdeep⟩ := hnested.padded _ hfits
      exact ⟨hsettles.map _, hdeep⟩
  | some rest =>
      rw [← fits_skipBlanks, stripDots_eq_some.1 hdots, fits_dots] at hfits
      obtain ⟨hsettles, hdeep⟩ := hnested.padded _ hfits
      exact ⟨hsettles.map _, hdeep⟩

theorem keyed_bounded (hnested : Bounded depth nested nested' deep) (hdepth : depth ≤ maxNesting) :
    Bounded depth (keyed nested) (keyed nested') (keyedDepth deep) := by
  intro cs hfits
  have hkey : Settles depth (padded (fun cs => .ofOption cs (key? cs)) cs)
      (padded (fun cs => .ofOption cs (key? cs)) cs) :=
    (key?_settles (fits_skipBlanks.2 hfits)).andThen fun _ _ hrest =>
      .done (fits_skipBlanks.2 hrest)
  have hcolon {rest : List Char} (hrest : Fits depth rest) :
      Settles depth (char ':' rest) (char ':' rest) := by
    refine char_settles ?_
    rintro rest rfl
    exact (fits_cons (by decide) depth rest).1 hrest
  constructor
  · exact hkey.andThen fun _ _ hrest => (hcolon hrest).andThen fun _ _ hrest =>
      ((hnested.padded _ hrest).1.require _).map _
  · exact hkey.openedAfter_le (fun _ hrest => (hcolon hrest).openedAfter_le
      (fun rest hrest => (hnested.padded rest hrest).2) hdepth) hdepth

theorem property_bounded (hnested : Bounded depth nested nested' deep)
    (hdepth : depth ≤ maxNesting) :
    Bounded depth (property nested) (property nested') (propertyDepth nested deep) := by
  intro cs hfits
  have hkeyed := keyed_bounded hnested hdepth cs hfits
  unfold property propertyDepth
  cases hdots : stripDots (skipBlanks cs) with
  | none => exact hkeyed
  | some rest =>
      rw [← fits_skipBlanks, stripDots_eq_some.1 hdots, fits_dots] at hfits
      obtain ⟨hsettles, hdeep⟩ := hnested.padded _ hfits
      refine ⟨(hsettles.map _).orElse hkeyed.1, ?_⟩
      have hkey := hkeyed.2
      dsimp only
      split <;> omega

theorem primary_bounded (hdepth : depth ≤ maxNesting)
    (hnested : depth < maxNesting → Bounded (depth + 1) nested nested' deep) :
    Bounded depth (primary nested) (primary nested') (primaryDepth nested deep) := by
  intro cs hfits
  unfold primary primaryDepth
  split
  · rw [fits_open (.inl rfl)] at hfits
    obtain ⟨hsettles, hdeep⟩ := Bounded.bracketed (element_bounded (hnested hfits.1)) hfits.1
      (.inl rfl) hfits.2
    exact ⟨hsettles.map _, hdeep⟩
  · rw [fits_open (.inr (.inl rfl))] at hfits
    obtain ⟨hsettles, hdeep⟩ := Bounded.bracketed (property_bounded (hnested hfits.1) hfits.1)
      hfits.1 (.inr (.inl rfl)) hfits.2
    exact ⟨hsettles.map _, hdeep⟩
  · rename_i rest
    rw [fits_open (.inr (.inr rfl))] at hfits
    obtain ⟨hsettles, hdeep⟩ := (hnested hfits.1).padded _ hfits.2
    have hopened : depth + (paddedDepth deep rest + 1) ≤ maxNesting := by omega
    refine ⟨?_, hopened⟩
    revert hsettles
    generalize padded nested rest = o, padded nested' rest = o'
    intro hsettles
    cases hsettles with
    | done hrest =>
        refine Settles.map (Settles.require (char_settles ?_) _) _
        rintro rest rfl
        exact (fits_close (.inr (.inr rfl))).1 hrest
    | mismatch => exact .mismatch
    | fault => exact .fault
  · -- what begins with no bracket is a token
    have hnumeral : ∀ e rest, numeral? cs = some (e, rest) → Fits depth rest := by
      intro e rest h
      obtain ⟨⟨n, rest'⟩, hn, heq⟩ := Option.map_eq_some_iff.1 h
      cases heq
      exact fits_rest (read?_of_numeral hn) (fun _ => nofun) hfits
    have hstring : ∀ (e : Expr) rest,
        (string? cs).map (fun r => (.literal (.string r.1), r.2)) = some (e, rest) →
          Fits depth rest := by
      intro e rest h
      obtain ⟨⟨s, rest'⟩, hs, heq⟩ := Option.map_eq_some_iff.1 h
      cases heq
      exact fits_rest (read?_of_string hs) (fun _ => nofun) hfits
    exact ⟨(Settles.ofOption hnumeral).orElse
      ((Settles.ofOption hstring).orElse ((name?_settles hfits).map _)), by simpa using hdepth⟩

theorem suffixes_bounded (hdepth : depth ≤ maxNesting)
    (hnested : depth < maxNesting → Bounded (depth + 1) nested nested' deep) (fuel : Nat)
    (base : Expr) :
    Bounded depth (suffixes nested fuel base) (suffixes nested' fuel base)
      (suffixesDepth nested deep fuel) := by
  induction fuel generalizing base with
  | zero => exact fun cs hfits => ⟨.done hfits, hdepth⟩
  | succ fuel ih =>
      intro cs hfits
      have hskip := fits_skipBlanks.2 hfits
      rw [suffixes, suffixes]
      generalize hds : skipBlanks cs = ds at hskip
      split
      · rename_i rest
        rw [fits_cons (by decide)] at hskip
        have hname := name?_settles (fits_skipBlanks.2 hskip)
        rw [suffixesDepth, hds]
        exact ⟨(hname.require _).andThen fun name _ hrest => (ih _ _ hrest).1,
          hname.openedAfter_le (fun rest hrest => (ih base rest hrest).2) hdepth⟩
      · rename_i rest
        rw [fits_open (.inr (.inr rfl))] at hskip
        obtain ⟨hsettles, hdeep⟩ :=
          Bounded.bracketed (hnested hskip.1) hskip.1 (.inr (.inr rfl)) hskip.2
        have hmore := hsettles.openedAfter_le (fun rest hrest => (ih base rest hrest).2) hdepth
        refine ⟨hsettles.andThen fun arguments _ hrest => (ih _ _ hrest).1, ?_⟩
        rw [suffixesDepth, hds]
        show depth + max _ _ ≤ maxNesting
        omega
      · rename_i hpoint hopen
        rw [suffixesDepth_other (by rwa [hds]) (by rwa [hds])]
        exact ⟨.done hfits, hdepth⟩

theorem postfixed_bounded (hdepth : depth ≤ maxNesting)
    (hnested : depth < maxNesting → Bounded (depth + 1) nested nested' deep) :
    Bounded depth (postfixed nested) (postfixed nested') (postfixedDepth nested deep) := by
  intro cs hfits
  obtain ⟨hsettles, hdeep⟩ := primary_bounded hdepth hnested cs hfits
  refine ⟨hsettles.andThen fun base rest hrest =>
    (suffixes_bounded hdepth hnested rest.length base rest hrest).1, ?_⟩
  have hmore := hsettles.openedAfter_le (fun rest hrest =>
    (suffixes_bounded hdepth hnested rest.length (.literal .null) rest hrest).2) hdepth
  rw [postfixedDepth]
  omega

theorem operands_bounded (hdepth : depth ≤ maxNesting)
    (hnested : depth < maxNesting → Bounded (depth + 1) nested nested' deep) (fuel : Nat)
    (left : Expr) :
    Bounded depth (operands nested fuel left) (operands nested' fuel left)
      (operandsDepth nested deep fuel) := by
  induction fuel generalizing left with
  | zero => exact fun cs hfits => ⟨.done hfits, hdepth⟩
  | succ fuel ih =>
      intro cs hfits
      have hskip := fits_skipBlanks.2 hfits
      rw [operands, operands]
      generalize hds : skipBlanks cs = ds at hskip
      split
      · rename_i rest
        rw [fits_cons (by decide)] at hskip
        obtain ⟨hsettles, hdeep⟩ :=
          postfixed_bounded hdepth hnested _ (fits_skipBlanks.2 hskip)
        have hmore := hsettles.openedAfter_le (fun rest hrest => (ih left rest hrest).2) hdepth
        refine ⟨(hsettles.require _).andThen fun right _ hrest => (ih _ _ hrest).1, ?_⟩
        rw [operandsDepth, hds]
        show depth + max _ _ ≤ maxNesting
        omega
      · rename_i hplus
        rw [operandsDepth_other (by rwa [hds])]
        exact ⟨.done hfits, hdepth⟩

theorem sum_bounded (hdepth : depth ≤ maxNesting)
    (hnested : depth < maxNesting → Bounded (depth + 1) nested nested' deep) :
    Bounded depth (sum nested) (sum nested') (sumDepth nested deep) := by
  intro cs hfits
  obtain ⟨hsettles, hdeep⟩ := postfixed_bounded hdepth hnested cs hfits
  refine ⟨hsettles.andThen fun first rest hrest =>
    (operands_bounded hdepth hnested rest.length first rest hrest).1, ?_⟩
  have hmore := hsettles.openedAfter_le (fun rest hrest =>
    (operands_bounded hdepth hnested rest.length (.literal .null) rest hrest).2) hdepth
  rw [sumDepth]
  omega

end Productions

/-- Inside so many brackets, every budget that makes up the limit with them gives one answer, and
opens no bracket beyond the limit. -/
theorem expression_bounded {room depth : Nat} (h : depth + room = maxNesting) (more more' : Nat) :
    Bounded depth (expression (room + more)) (expression (room + more'))
      (deepest (room + more)) := by
  induction room generalizing depth with
  | zero =>
      -- no further bracket can be opened, so that what would read it does not matter
      have hdepth : depth ≤ maxNesting := by omega
      have hnone (nested nested' : Parser Expr) (deep : List Char → Nat) :
          Bounded depth (sum nested) (sum nested') (sumDepth nested deep) :=
        sum_bounded hdepth fun hlt => by omega
      cases more <;> cases more' <;> exact hnone _ _ _
  | succ room ih =>
      have hinner : Bounded (depth + 1) (expression (room + more)) (expression (room + more'))
          (deepest (room + more)) := ih (by omega)
      rw [Nat.succ_add_eq_add_succ room more, Nat.succ_add_eq_add_succ room more']
      exact sum_bounded (by omega) fun _ => hinner

/-! ### Where the scan stops -/

/-- The first bracket of a text that would be open inside `budget` others: it stands outside
strings, that many are open before it, and nowhere earlier more. -/
structure FirstBeyond (budget : Nat) (start : Nesting) (before : List Char) (c : Char) : Prop where
  opens : c = '[' ∨ c = '{' ∨ c = '('
  full : before.foldl Nesting.next start = ⟨budget, none⟩
  earlier : ∀ p, p <+: before → (p.foldl Nesting.next start).unclosed ≤ budget

theorem FirstBeyond.cons {budget : Nat} {start : Nesting} {before : List Char} {b c : Char}
    (h : FirstBeyond budget (start.next b) before c) (hstart : start.unclosed ≤ budget) :
    FirstBeyond budget start (b :: before) c where
  opens := h.opens
  full := h.full
  earlier := by
    intro p hp
    rcases List.prefix_cons_iff.1 hp with rfl | ⟨q, rfl, hq⟩
    · exact hstart
    · exact h.earlier q hq

theorem firstTooDeep_eq_some {budget depth : Nat} {inside : Option InString}
    {cs near : List Char} (hdepth : depth ≤ budget)
    (h : firstTooDeep budget depth inside cs = some near) :
    ∃ before c after, cs = before ++ c :: after ∧ near = c :: after ∧
      FirstBeyond budget ⟨depth, inside⟩ before c := by
  induction cs generalizing depth inside with
  | nil => cases h
  | cons b rest ih =>
      have hmore {depth' : Nat} {inside' : Option InString} (hdepth' : depth' ≤ budget)
          (hnext : Nesting.next ⟨depth, inside⟩ b = ⟨depth', inside'⟩)
          (h : firstTooDeep budget depth' inside' rest = some near) :
          ∃ before c after, b :: rest = before ++ c :: after ∧ near = c :: after ∧
            FirstBeyond budget ⟨depth, inside⟩ before c := by
        obtain ⟨before, c, after, rfl, hnear, hfirst⟩ := ih hdepth' h
        rw [← hnext] at hfirst
        exact ⟨b :: before, c, after, rfl, hnear, hfirst.cons hdepth⟩
      cases inside with
      | some s => exact hmore hdepth rfl h
      | none =>
          rw [firstTooDeep] at h
          split at h
          · rename_i hquote
            exact hmore hdepth (by simp [Nesting.next, hquote]) h
          · rename_i hquote
            split at h
            · rename_i hopen
              split at h
              · cases h
                have hfull : depth = budget := by omega
                subst hfull
                refine ⟨[], b, rest, rfl, rfl, hopen, rfl, ?_⟩
                intro p hp
                rw [List.prefix_nil.1 hp]
                exact hdepth
              · exact hmore (by omega) (by simp [Nesting.next, hquote, hopen]) h
            · rename_i hopen
              split at h
              · rename_i hclose
                exact hmore (by omega) (by simp [Nesting.next, hquote, hopen, hclose]) h
              · rename_i hclose
                exact hmore hdepth (by simp [Nesting.next, hquote, hopen, hclose]) h

theorem byteLength_append (cs ds : List Char) :
    Text.byteLength (cs ++ ds) = Text.byteLength cs + Text.byteLength ds := by
  induction cs with
  | nil => simp [Text.byteLength]
  | cons c cs ih => simp [Text.byteLength, ih, Nat.add_assoc]

/-! ### The parser behind the scan -/

/-- Parses a whole text by some descent, once the scan has accepted it. -/
def parseBy (descent : Parser Expr) (cs : List Char) : Except ParseError Expr :=
  let offset (rest : List Char) : Nat := Text.byteLength cs - Text.byteLength rest
  let unexpected (rest : List Char) : Except ParseError Expr :=
    .error ⟨.unexpected (rest.take nearLength), offset rest⟩
  match firstTooDeep maxNesting 0 none cs with
  | some rest => .error ⟨.tooDeep, offset rest⟩
  | none =>
    match padded descent cs with
    | .done e [] => .ok e
    | .done _ rest => unexpected rest
    | .mismatch rest => unexpected rest
    | .fault expected rest => .error ⟨.expected expected (rest.take nearLength), offset rest⟩
    | .tooDeep => .error ⟨.tooDeep, 0⟩

theorem parseChars_eq_parseBy (cs : List Char) :
    Expr.parseChars cs = parseBy (expression (maxNesting + 1)) cs := rfl

section Accepted

variable {cs : List Char} (h : firstTooDeep maxNesting 0 none cs = none)
include h

theorem parseBy_of_settles {p p' : Parser Expr} (hp : Settles 0 (padded p cs) (padded p' cs)) :
    parseBy p cs = parseBy p' cs ∧ ∀ offset, parseBy p cs ≠ .error ⟨.tooDeep, offset⟩ := by
  unfold parseBy
  rw [h]
  dsimp only
  revert hp
  generalize padded p cs = o, padded p' cs = o'
  intro hp
  cases hp with
  | @done e rest _ => cases rest <;> simp
  | mismatch => simp
  | fault => simp

end Accepted

/-- **The scan of brackets guards the descent.** On a text that it accepts, no descent with at
least the limit as its budget has more brackets open at once than the limit, and each of them
answers what the parser answers, which never is for want of budget. A text that it refuses is
refused at the first bracket outside strings that would be one too many, by its place in bytes,
and whatever the descent would do. -/
theorem parse_guarded (text : String) :
    match firstTooDeep maxNesting 0 none text.toList with
    | none => ∀ more, deepest (maxNesting + more) (skipBlanks text.toList) ≤ maxNesting ∧
        parseBy (expression (maxNesting + more)) text.toList = Expr.parse text ∧
        ∀ offset, Expr.parse text ≠ .error ⟨.tooDeep, offset⟩
    | some near => ∃ before c after, text.toList = before ++ c :: after ∧ near = c :: after ∧
        FirstBeyond maxNesting ⟨0, none⟩ before c ∧
        Expr.parse text = .error ⟨.tooDeep, Text.byteLength before⟩ ∧
        ∀ descent, parseBy descent text.toList = Expr.parse text := by
  rw [Expr.parse, parseChars_eq_parseBy]
  generalize text.toList = cs
  cases hscan : firstTooDeep maxNesting 0 none cs with
  | none =>
      intro more
      have hbounded (more more' : Nat) := expression_bounded (Nat.zero_add maxNesting) more more'
      have hdeep := ((hbounded more 1).padded cs hscan).2
      have hanswer := parseBy_of_settles hscan ((hbounded more 1).padded cs hscan).1
      have hsettled := parseBy_of_settles hscan ((hbounded 1 1).padded cs hscan).1
      rw [Nat.zero_add] at hdeep
      exact ⟨hdeep, hanswer.1, hsettled.2⟩
  | some near =>
      obtain ⟨before, c, after, rfl, rfl, hfirst⟩ :=
        firstTooDeep_eq_some (Nat.zero_le maxNesting) hscan
      have hanswer (descent : Parser Expr) : parseBy descent (before ++ c :: after) =
          .error ⟨.tooDeep, Text.byteLength before⟩ := by
        have hoffset : Text.byteLength (before ++ c :: after) - Text.byteLength (c :: after) =
            Text.byteLength before := by
          rw [byteLength_append, Nat.add_sub_cancel]
        simp only [parseBy, hscan, hoffset]
      refine ⟨before, c, after, rfl, rfl, hfirst, hanswer _, fun descent => ?_⟩
      rw [hanswer, hanswer]

end SchemaWeave.Grammar
