import SchemaWeave.Yaml.Token.Tag

/-!
A key needs no mark of its own: only the colon after it shows that it was one. So the scanner
remembers where a key may have begun, once for each level of flow collections, and puts the tokens
that announce it there when the colon comes. Such a key ends on its line and within 1024 bytes.
-/

namespace SchemaWeave.Yaml

/-- A token that may turn out to begin a key: its place among the tokens and in the text. A required
one has to be a key, because nothing else may begin at its indentation. -/
structure PendingKey where
  required : Bool
  position : Nat
  index : Nat
  line : Nat
  column : Nat

/-- The longest that a key without a mark may be, in bytes. -/
def longestKey : Nat := 1024

/-- Whether a key that began there would have ended before the cursor. -/
def PendingKey.stale (k : PendingKey) (cur : Cursor) : Bool :=
  decide (k.line < cur.line) || decide (k.index + longestKey < cur.index)

/-- The state of scanning. The indentation of no block at all is `-1`. -/
structure Scanner where
  cursor : Cursor
  tokens : Array Token
  indent : Int
  outerIndents : List Int
  keyAllowed : Bool
  pending : Option PendingKey
  outerPending : List (Option PendingKey)

namespace Scanner

def start (cs : List Char) : Scanner := ⟨.start cs, #[], -1, [], true, none, []⟩

/-- Whether the cursor is inside a flow collection. -/
def inFlow (s : Scanner) : Bool := !s.outerPending.isEmpty

def push (s : Scanner) (t : Token) : Scanner := { s with tokens := s.tokens.push t }

def moveTo (s : Scanner) (cur : Cursor) : Scanner := { s with cursor := cur }

/-- Gives up a pending key that can no longer be one. -/
def refresh (cur : Cursor) : Option PendingKey → Scan (Option PendingKey)
  | none => .ok none
  | some k =>
    if k.stale cur then if k.required then .error .missingColon else .ok none
    else .ok (some k)

/-- Gives up all pending keys that can no longer be ones. -/
def dropStale (s : Scanner) : Scan Scanner := do
  let outer ← s.outerPending.mapM (refresh s.cursor)
  let pending ← refresh s.cursor s.pending
  .ok { s with pending := pending, outerPending := outer }

/-- Gives up the pending key because something else begins. -/
def dropPending (s : Scanner) : Scan Scanner :=
  if s.pending.any PendingKey.required then .error .missingColon
  else .ok { s with pending := none }

/-- The next token may be a key. -/
def expectKey (s : Scanner) : Scan Scanner :=
  if s.keyAllowed then do
    let s ← s.dropPending
    let required := !s.inFlow && s.indent == (s.cursor.column : Int)
    let key : PendingKey :=
      ⟨required, s.tokens.size, s.cursor.index, s.cursor.line, s.cursor.column⟩
    .ok { s with pending := some key }
  else .ok s

/-- Opens a block collection when the column is further in than the current block; its token goes to
the given place. -/
def openBlock (s : Scanner) (column : Nat) (position : Nat) (t : Token) : Scanner :=
  if !s.inFlow && s.indent < (column : Int) then
    { s with
      tokens := s.tokens.insertIdxIfInBounds position t
      indent := column
      outerIndents := s.indent :: s.outerIndents }
  else s

/-- Closes the blocks that are further in than a column. -/
def closeTo (column : Int) : List Int → Int → Array Token → Array Token × Int × List Int
  | [], indent, tokens => (tokens, indent, [])
  | outer :: rest, indent, tokens =>
    if column < indent then closeTo column rest outer (tokens.push .blockEnd)
    else (tokens, indent, outer :: rest)

def closeBlocks (s : Scanner) (column : Int) : Scanner :=
  if s.inFlow then s
  else
    let (tokens, indent, outer) := closeTo column s.outerIndents s.indent s.tokens
    { s with tokens := tokens, indent := indent, outerIndents := outer }

/-- Moves over blanks, comments and line ends to the next token. A tab counts as a blank only where
no indentation is expected. -/
def skipToToken : Nat → Scanner → Scanner
  | 0, s => s
  | fuel + 1, s =>
    let cur := if s.cursor.column = 0 ∧ s.cursor.rest.head? = some '\ufeff' then s.cursor.forward 1
      else s.cursor
    let tabs := s.inFlow || !s.keyAllowed
    let cur := cur.skipWhile fun c => c == ' ' || (tabs && c == '\t')
    let cur := if cur.rest.head? == some '#' then cur.skipLine else cur
    if cur.rest.head?.any isBreak then
      skipToToken fuel
        { s with cursor := cur.takeBreak.2, keyAllowed := if s.inFlow then s.keyAllowed else true }
    else { s with cursor := cur }

/-- A token of `n` characters. -/
def mark (s : Scanner) (t : Token) (n : Nat) : Scanner := (s.push t).moveTo (s.cursor.forward n)

/-- The start of a flow collection, which may itself be a key. -/
def openFlow (s : Scanner) (t : Token) : Scan Scanner := do
  let s ← s.expectKey
  .ok ({ s with
    pending := none, outerPending := s.pending :: s.outerPending, keyAllowed := true }.mark t 1)

def closeFlow (s : Scanner) (t : Token) : Scan Scanner := do
  let s ← s.dropPending
  let s := match s.outerPending with
    | [] => s
    | outer :: rest => { s with pending := outer, outerPending := rest }
  .ok ({ s with keyAllowed := false }.mark t 1)

def flowEntry (s : Scanner) : Scan Scanner := do
  let s ← s.dropPending
  .ok ({ s with keyAllowed := true }.mark .flowEntry 1)

def blockEntry (s : Scanner) : Scan Scanner := do
  if !s.inFlow && !s.keyAllowed then .error .misplacedEntry
  else
    let s := s.openBlock s.cursor.column s.tokens.size .blockSequenceStart
    let s ← s.dropPending
    .ok ({ s with keyAllowed := true }.mark .blockEntry 1)

def keyMark (s : Scanner) : Scan Scanner := do
  if !s.inFlow && !s.keyAllowed then .error .misplacedKey
  else
    let s := s.openBlock s.cursor.column s.tokens.size .blockMappingStart
    let s ← s.dropPending
    .ok ({ s with keyAllowed := !s.inFlow }.mark .key 1)

/-- A colon. It turns the pending token into a key, or follows a marked or empty key. -/
def valueMark (s : Scanner) : Scan Scanner :=
  match s.pending with
  | some k =>
    let s := { s with
      tokens := s.tokens.insertIdxIfInBounds k.position .key, pending := none, keyAllowed := false }
    .ok ((s.openBlock k.column k.position .blockMappingStart).mark .value 1)
  | none =>
    if !s.inFlow && !s.keyAllowed then .error .misplacedValue
    else
      let s := s.openBlock s.cursor.column s.tokens.size .blockMappingStart
      .ok ({ s with keyAllowed := !s.inFlow }.mark .value 1)

/-- A name, tag or scalar, which may be a key. -/
def content (s : Scanner) (scan : Cursor → Scan (Token × Cursor)) : Scan Scanner := do
  let s ← s.expectKey
  let (t, cur) ← scan s.cursor
  .ok (({ s with keyAllowed := false }.push t).moveTo cur)

/-- A plain scalar; when it ends in a line end, a key may follow it. -/
def plain (s : Scanner) : Scan Scanner := do
  let s ← s.expectKey
  let (text, broken, cur) ← scanPlain s.inFlow (s.indent + 1).toNat s.cursor
  .ok (({ s with keyAllowed := broken }.push (.scalar .plain (String.ofList text))).moveTo cur)

def block (s : Scanner) (folded : Bool) : Scan Scanner := do
  let s ← s.dropPending
  let (text, cur) ← scanBlock folded s.indent s.cursor
  let style := if folded then Style.folded else Style.literal
  .ok (({ s with keyAllowed := true }.push (.scalar style (String.ofList text))).moveTo cur)

def quoted (s : Scanner) (quote : Char) : Scan Scanner :=
  s.content fun cur => do
    let (text, cur) ← scanQuoted quote cur
    let style := if quote = '\'' then Style.singleQuoted else Style.doubleQuoted
    .ok (.scalar style (String.ofList text), cur)

/-- What separates documents, or a directive, closes every block. -/
def closeAll (s : Scanner) : Scan Scanner := do
  let s ← (s.closeBlocks (-1)).dropPending
  .ok { s with keyAllowed := false }

def directive (s : Scanner) : Scan Scanner := do
  let s ← s.closeAll
  let (t, cur) ← scanDirective s.cursor
  .ok ((s.push t).moveTo cur)

/-- Characters that cannot begin a plain scalar by themselves. -/
def indicators : List Char := "-?:,[]\x7b\x7d#&*!|>'\"%@`".toList

/-- Whether a plain scalar begins here. -/
def plainStarts (s : Scanner) (c : Char) (rest : List Char) : Bool :=
  !(isBlank c || isBreak c || indicators.contains c) ||
    (c == '-' && !rest.head?.any isBlank) ||
    (!s.inFlow && (c == '?' || c == ':') && !blankNext rest)

/-- The next token, whose first character is given. -/
def token (s : Scanner) (c : Char) (rest : List Char) : Scan Scanner :=
  let alone := blankNext rest
  if s.cursor.column = 0 ∧ c = '%' then s.directive
  else if s.cursor.atMarker '-' then do .ok ((← s.closeAll).mark .documentStart 3)
  else if s.cursor.atMarker '.' then do .ok ((← s.closeAll).mark .documentEnd 3)
  else if c = '[' then s.openFlow .flowSequenceStart
  else if c = '{' then s.openFlow .flowMappingStart
  else if c = ']' then s.closeFlow .flowSequenceEnd
  else if c = '}' then s.closeFlow .flowMappingEnd
  else if c = ',' then s.flowEntry
  else if c = '-' ∧ alone then s.blockEntry
  else if c = '?' ∧ (s.inFlow ∨ alone) then s.keyMark
  else if c = ':' ∧ (s.inFlow ∨ alone) then s.valueMark
  else if c = '*' then s.content fun cur => do
    let (name, cur) ← scanName cur
    .ok (.aliasOf name, cur)
  else if c = '&' then s.content fun cur => do
    let (name, cur) ← scanName cur
    .ok (.anchor name, cur)
  else if c = '!' then s.content (scanTag s.inFlow)
  else if c = '|' ∧ !s.inFlow then s.block false
  else if c = '>' ∧ !s.inFlow then s.block true
  else if c = '\'' ∨ c = '"' then s.quoted c
  else if s.plainStarts c rest then s.plain
  else .error .unexpectedCharacter

/-- Scans to the end; every step takes a character, and so does every step between tokens. -/
def run : Nat → Scanner → Scan (Array Token)
  | 0, s => .ok s.tokens
  | fuel + 1, s => do
    let s ← (skipToToken (fuel + 1) s).dropStale
    let s := s.closeBlocks s.cursor.column
    match s.cursor.rest with
    | [] => do
      let s ← s.closeAll
      .ok (s.tokens.push .streamEnd)
    | c :: rest => do run fuel (← s.token c rest)

end Scanner

/-- The tokens of a text. -/
def Token.scan (text : String) : Scan (List Token) :=
  let cs := text.toList
  if cs.all isAllowed then do
    .ok (← Scanner.run (cs.length + 1) (.start cs)).toList
  else .error .forbiddenCharacter

end SchemaWeave.Yaml
