import SchemaWeave.Yaml.Token

/-!
Plain and quoted scalars may run over several lines: a single line end between two words becomes a
space, and further line ends are kept. Block scalars keep their lines, or fold them where neither
line is indented further.
-/

namespace SchemaWeave.Yaml

/-- Scanning either goes on or stops with a fault. -/
abbrev Scan := Except Fault

/-- What separates two words of a plain or quoted scalar: blanks of one line, or line ends. -/
structure Gap where
  broken : Bool
  blanks : List Char
  first : List Char
  more : List Char

namespace Gap

def none : Gap := ⟨false, [], [], []⟩

/-- A gap that an escaped line end begins: it leaves nothing of itself. -/
def escaped : Gap := ⟨true, [], [], []⟩

/-- What a gap becomes between two words. -/
def text (g : Gap) : List Char :=
  if g.broken then
    match g.first with
    | '\n' :: _ => if g.more.isEmpty then [' '] else g.more
    | first => first ++ g.more
  else g.blanks

def addBlank (g : Gap) (c : Char) : Gap :=
  if g.broken then g else { g with blanks := g.blanks ++ [c] }

def addBreak (g : Gap) (kept : List Char) : Gap :=
  if g.broken then { g with more := g.more ++ kept }
  else { g with broken := true, first := kept }

end Gap

/-- Takes the blanks and line ends that follow. Within a plain scalar that is indented by `indent`,
a tab may not take the place of indentation. -/
def takeGap (indent : Option Nat) : Nat → Gap → Cursor → Scan (Gap × Cursor)
  | 0, gap, cur => .ok (gap, cur)
  | fuel + 1, gap, cur =>
    match cur.rest with
    | [] => .ok (gap, cur)
    | c :: _ =>
      if isBlank c then
        let abuse := match indent with
          | some n => gap.broken && c == '\t' && decide (cur.column < n)
          | _ => false
        if abuse then .error .tabIndentation
        else takeGap indent fuel (gap.addBlank c) (cur.forward 1)
      else if isBreak c then
        let (kept, cur) := cur.takeBreak
        takeGap indent fuel (gap.addBreak kept) cur
      else .ok (gap, cur)

/-- Characters that have a meaning inside flow collections. -/
def isFlowIndicator (c : Char) : Bool :=
  c == ',' || c == '[' || c == ']' || c == '{' || c == '}'

/-- A word of a plain scalar. It ends at a blank, at a colon before a blank, and in a flow
collection at an indicator. -/
def plainWord (inFlow : Bool) : List Char → Scan (List Char)
  | [] => .ok []
  | c :: rest =>
    if isBlank c || isBreak c then .ok []
    else if inFlow && c == ':' && (rest.head?.any fun d => isFlowIndicator d || d == '?') then
      .error .unexpectedCharacter
    else if (c == ':' && blankNext rest) || (inFlow && isFlowIndicator c) then .ok []
    else do .ok (c :: (← plainWord inFlow rest))

/-- A plain scalar from here on, after the reversed words so far and a gap; also whether it ends in
a line end of its own. Every word and gap takes a character, and so does every step within. -/
def plainFrom (inFlow : Bool) (indent : Nat) :
    Nat → List Char → Gap → Cursor → Scan (List Char × Bool × Cursor)
  | 0, reversed, gap, cur => .ok (reversed.reverse, gap.broken, cur)
  | fuel + 1, reversed, gap, cur =>
    if cur.atAnyMarker || cur.rest.head? == some '#' then .ok (reversed.reverse, gap.broken, cur)
    else do
      let word ← plainWord inFlow cur.rest
      let cur := cur.forward word.length
      let (reversed, gap) :=
        if word.isEmpty then (reversed, gap)
        else (word.reverseAux (gap.text.reverseAux reversed), Gap.none)
      if cur.rest.isEmpty || !blankNext cur.rest then .ok (reversed.reverse, gap.broken, cur)
      else
        let (gap, cur) ← takeGap (some indent) (fuel + 1) gap cur
        if !inFlow && cur.column < indent then .ok (reversed.reverse, gap.broken, cur)
        else plainFrom inFlow indent fuel reversed gap cur

/-- A plain scalar. -/
def scanPlain (inFlow : Bool) (indent : Nat) (cur : Cursor) : Scan (List Char × Bool × Cursor) :=
  plainFrom inFlow indent (cur.rest.length + 1) [] Gap.none cur

def hexValue? (c : Char) : Option Nat :=
  if '0' ≤ c ∧ c ≤ '9' then some (c.toNat - 48)
  else if 'a' ≤ c ∧ c ≤ 'f' then some (c.toNat - 87)
  else if 'A' ≤ c ∧ c ≤ 'F' then some (c.toNat - 55)
  else none

/-- A number of that many hexadecimal digits. -/
def hexNumber? (digits : List Char) : Option Nat :=
  digits.foldlM (fun n c => (hexValue? c).map fun d => n * 16 + d) 0

/-- The character with a code point; surrogates are none. -/
def charOf? (n : Nat) : Option Char := if n.isValidChar then some (Char.ofNat n) else none

/-- What a backslash and one letter stand for in double quotes. -/
def letterEscape? (c : Char) : Option Char :=
  if c = '0' then some '\x00'
  else if c = 'a' then some '\x07'
  else if c = 'b' then some '\x08'
  else if c = 't' ∨ c = '\t' then some '\t'
  else if c = 'n' then some '\n'
  else if c = 'v' then some '\x0b'
  else if c = 'f' then some '\x0c'
  else if c = 'r' then some '\r'
  else if c = 'e' then some '\x1b'
  else if c = ' ' ∨ c = '"' ∨ c = '/' ∨ c = '\\' then some c
  else if c = 'N' then some '\x85'
  else if c = '_' then some '\xa0'
  else if c = 'L' then some '\u2028'
  else if c = 'P' then some '\u2029'
  else none

/-- How many hexadecimal digits follow an escape letter. -/
def codeLength? (c : Char) : Option Nat :=
  if c = 'x' then some 2 else if c = 'u' then some 4 else if c = 'U' then some 8 else none

/-- The character that an escape stands for, and how many characters it takes after the
backslash. -/
def escape (cs : List Char) : Scan (Char × Nat) :=
  match cs with
  | [] => .error .unterminated
  | e :: rest =>
    match letterEscape? e, codeLength? e with
    | some c, _ => .ok (c, 1)
    | none, some n =>
      match (if (rest.take n).length = n then hexNumber? (rest.take n) else none) with
      | some code =>
        match charOf? code with
        | some c => .ok (c, n + 1)
        | none => .error .badEscape
      | none => .error .badEscape
    | none, none => .error .badEscape

/-- A word of a quoted scalar, up to a blank, the closing quote or an escaped line end, in front of
the reversed text so far; also the gap that the latter begins. -/
def quotedWord (quote : Char) : Nat → List Char → Cursor → Scan (List Char × Gap × Cursor)
  | 0, _, _ => .error .unterminated
  | fuel + 1, word, cur =>
    match cur.rest with
    | [] => .ok (word, Gap.none, cur)
    | c :: rest =>
      if isBlank c || isBreak c then .ok (word, Gap.none, cur)
      else if c = quote then
        if quote = '\'' ∧ rest.head? = some '\'' then
          quotedWord quote fuel ('\'' :: word) (cur.forward 2)
        else .ok (word, Gap.none, cur)
      else if quote = '"' ∧ c = '\\' then
        if rest.head?.any isBreak then .ok (word, Gap.escaped, (cur.forward 1).takeBreak.2)
        else do
          let (c, taken) ← escape rest
          quotedWord quote fuel (c :: word) (cur.forward (taken + 1))
      else quotedWord quote fuel (c :: word) (cur.forward 1)

/-- A quoted scalar from here on, after the reversed text so far. Every word and gap takes a
character, and so does every step within. -/
def quotedFrom (quote : Char) : Nat → List Char → Cursor → Scan (List Char × Cursor)
  | 0, _, _ => .error .unterminated
  | fuel + 1, reversed, cur =>
    if cur.atAnyMarker then .error .markerInString
    else if cur.rest.isEmpty then .error .unterminated
    else do
      let (reversed, gap, cur) ← quotedWord quote (fuel + 2) reversed cur
      if cur.rest.head? == some quote then .ok (reversed.reverse, cur.forward 1)
      else
        let (gap, cur) ← takeGap none (fuel + 2) gap cur
        quotedFrom quote fuel (gap.text.reverseAux reversed) cur

/-- A quoted scalar whose opening quote is next. -/
def scanQuoted (quote : Char) (cur : Cursor) : Scan (List Char × Cursor) :=
  quotedFrom quote (cur.rest.length + 1) [] (cur.forward 1)

/-- What happens to the line ends at the end of a block scalar. -/
inductive Chomp where
  | strip
  | clip
  | keep
  deriving DecidableEq, Repr

def chomp? (c : Char) : Option Chomp :=
  if c = '+' then some .keep else if c = '-' then some .strip else none

/-- The header of a block scalar after its indicator: chomping and indentation, in either order. -/
def blockHeader (cur : Cursor) : Scan (Chomp × Nat × Cursor) :=
  let digit (cur : Cursor) : Scan (Nat × Cursor) :=
    match cur.rest with
    | c :: _ =>
      if c = '0' then .error .badHeader
      else if '1' ≤ c ∧ c ≤ '9' then .ok (c.toNat - 48, cur.forward 1)
      else .ok (0, cur)
    | [] => .ok (0, cur)
  match cur.rest.head?.bind chomp? with
  | some chomp => do
    let (n, cur) ← digit (cur.forward 1)
    .ok (chomp, n, cur)
  | none => do
    let (n, cur) ← digit cur
    if n = 0 then .ok (.clip, 0, cur)
    else
      match cur.rest.head?.bind chomp? with
      | some chomp => .ok (chomp, n, cur.forward 1)
      | none => .ok (.clip, n, cur)

/-- Takes the empty lines of a block scalar and the indentation of the next line. An indentation of
zero is not known yet: then all spaces are taken, and the widest line sets it. -/
def blockBreaks (least : Nat) :
    Nat → Nat → Nat → List Char → Cursor → Scan (Nat × List Char × Cursor)
  | 0, indent, _, breaks, cur => .ok (indent, breaks, cur)
  | fuel + 1, indent, widest, breaks, cur =>
    let spaces := (cur.rest.takeWhile (· == ' ')).length
    let cur := cur.forward (if indent = 0 then spaces else min spaces (indent - cur.column))
    let widest := max widest cur.column
    if (indent = 0 ∨ cur.column < indent) ∧ cur.rest.head? = some '\t' then .error .tabIndentation
    else if cur.rest.head?.any isBreak then
      let (kept, cur) := cur.takeBreak
      blockBreaks least fuel indent widest (breaks ++ kept) cur
    else .ok (if indent = 0 then max widest least else indent, breaks, cur)

/-- What the line ends between two lines of a block scalar become. -/
def blockJoin (folded startsBlank : Bool) (first more : List Char) : List Char :=
  match folded && first.head? == some '\n' && !startsBlank with
  | true => if more.isEmpty then [' '] else more
  | false => first ++ more

/-- The lines of a block scalar, after the reversed text so far: the end of the last line, whether
that line started with a blank, and the empty lines after it are still to be joined. Every line
takes a character, and so does every empty one. -/
def blockLines (folded : Bool) (least indent : Nat) :
    Nat → List Char → List Char → Bool → List Char → Cursor →
      Scan (List Char × List Char × List Char × Cursor)
  | 0, reversed, first, _, more, cur => .ok (reversed.reverse, first, more, cur)
  | fuel + 1, reversed, first, startedBlank, more, cur =>
    if cur.column = indent ∧ !cur.rest.isEmpty then do
      let startsBlank := cur.rest.head?.any isBlank
      let joint := blockJoin folded (startedBlank || startsBlank) first more
      let line := cur.rest.takeWhile fun c => !isBreak c
      let (first, cur) := (cur.forward line.length).takeBreak
      let (_, more, cur) ← blockBreaks least (fuel + 1) indent 0 [] cur
      blockLines folded least indent fuel (line.reverseAux (joint.reverseAux reversed)) first
        startsBlank more cur
    else .ok (reversed.reverse, first, more, cur)

/-- A block scalar whose indicator is next, inside a block indented by `outer`. -/
def scanBlock (folded : Bool) (outer : Int) (cur : Cursor) : Scan (List Char × Cursor) := do
  let (chomp, hint, cur) ← blockHeader (cur.forward 1)
  let cur := cur.skipWhile isBlank
  let cur := if cur.rest.head? == some '#' then cur.skipLine else cur
  if !cur.atLineEnd then .error .badHeader
  else
    let cur := cur.takeBreak.2
    let least := max (outer + 1).toNat 1
    let hinted := if hint = 0 then 0 else outer.toNat + hint
    let (indent, more, cur) ← blockBreaks least (cur.rest.length + 1) hinted 0 [] cur
    let (text, first, more, cur) ←
      blockLines folded least indent (cur.rest.length + 1) [] [] false more cur
    let ending := match chomp with
      | .strip => []
      | .clip => first
      | .keep => first ++ more
    .ok (text ++ ending, cur)

end SchemaWeave.Yaml
