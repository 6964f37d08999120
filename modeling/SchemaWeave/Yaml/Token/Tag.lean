import SchemaWeave.Yaml.Token.Scalar

/-!
Scanning the names of anchors and aliases, tags, and the directives before a document.
-/

namespace SchemaWeave.Yaml

/-- Characters of anchors, tag handles and directive names. -/
def isNameChar (c : Char) : Bool :=
  (decide ('0' ≤ c) && decide (c ≤ '9')) || (decide ('A' ≤ c) && decide (c ≤ 'Z')) ||
    (decide ('a' ≤ c) && decide (c ≤ 'z')) || c == '_' || c == '-'

/-- The name of an anchor or alias whose indicator is next. -/
def scanName (cur : Cursor) : Scan (String × Cursor) :=
  let name := (cur.rest.drop 1).takeWhile isNameChar
  let cur := cur.forward (name.length + 1)
  let ends := blankNext cur.rest || cur.rest.head?.any fun c => "?:,]\x7d%@`".toList.contains c
  if name.isEmpty || !ends then .error .badName else .ok (String.ofList name, cur)

/-- Characters of a tag, besides those of names; a verbatim tag may also hold flow indicators. -/
def isTagChar (verbatim : Bool) (c : Char) : Bool :=
  isNameChar c || ";/?:@&=+$.%!~*'()".toList.contains c ||
    (verbatim && (c == ',' || c == '[' || c == ']'))

/-- The byte written as two hexadecimal digits after a percent sign, at the beginning of a text. -/
def escapedByte? (cs : List Char) : Option (Nat × List Char) :=
  match cs with
  | '%' :: a :: b :: rest => do
    let a ← hexValue? a
    let b ← hexValue? b
    some (a * 16 + b, rest)
  | _ => none

/-- The continuation bytes of a character, folded into its code point. -/
def continuation? : Nat → Nat → List Char → Option (Nat × List Char)
  | 0, code, cs => some (code, cs)
  | n + 1, code, cs =>
    match escapedByte? cs with
    | some (byte, rest) =>
      if byte / 64 = 2 then continuation? n (code * 64 + byte % 64) rest else none
    | none => none

/-- The character that escaped bytes of the given number stand for. Bytes of no character, and those
that are not the shortest form of one, stand for a mark of their own, since no name has them. -/
def charOfBytes (count code : Nat) : Char :=
  match charOf? code with
  | some c => if c.utf8Size = count then c else '\ufffd'
  | none => '\ufffd'

/-- A character written by its escaped UTF-8 bytes. -/
def escapedChar (cs : List Char) : Scan (Char × List Char) :=
  let found := do
    let (first, rest) ← escapedByte? cs
    let (more, code) ←
      if first < 0x80 then some (0, first)
      else if first / 32 = 6 then some (1, first % 32)
      else if first / 16 = 14 then some (2, first % 16)
      else if first / 8 = 30 then some (3, first % 8)
      else none
    let (code, rest) ← continuation? more code rest
    some (charOfBytes (more + 1) code, rest)
  match found with
  | some found => .ok found
  | none => .error .badTag

/-- The characters of a tag, with escapes decoded, and the text after them. -/
def tagText (verbatim : Bool) : Nat → List Char → Scan (List Char × List Char)
  | 0, cs => .ok ([], cs)
  | _ + 1, [] => .ok ([], [])
  | fuel + 1, c :: rest =>
    if c = '%' then do
      let (c, rest) ← escapedChar (c :: rest)
      let (text, rest) ← tagText verbatim fuel rest
      .ok (c :: text, rest)
    else if isTagChar verbatim c then do
      let (text, rest) ← tagText verbatim fuel rest
      .ok (c :: text, rest)
    else .ok ([], c :: rest)

/-- The characters of a tag from the cursor on. -/
def scanTagText (verbatim : Bool) (cur : Cursor) : Scan (List Char × Cursor) := do
  let (text, rest) ← tagText verbatim (cur.rest.length + 1) cur.rest
  .ok (text, cur.forward (cur.rest.length - rest.length))

/-- What counts of the characters of a tag: they end at a zero. -/
def upToZero (text : List Char) : String := String.ofList (text.takeWhile (· != '\x00'))

/-- A handle: an exclamation mark, name characters, and a second mark if there is one. -/
def scanHandle (cur : Cursor) : Scan (List Char × Cursor) :=
  match cur.rest with
  | '!' :: rest =>
    let name := rest.takeWhile isNameChar
    let cur := cur.forward (name.length + 1)
    if cur.rest.head? == some '!' then .ok ('!' :: name ++ ['!'], cur.forward 1)
    else .ok ('!' :: name, cur)
  | _ => .error .badTag

/-- A tag whose exclamation mark is next. -/
def scanTag (inFlow : Bool) (cur : Cursor) : Scan (Token × Cursor) := do
  let (token, cur) ← match cur.rest with
    | '!' :: '<' :: _ => do
      let (text, cur) ← scanTagText true (cur.forward 2)
      if text.isEmpty || cur.rest.head? != some '>' then .error .badTag
      else .ok (Token.tag "" (upToZero text), cur.forward 1)
    | _ => do
      let (handle, cur) ← scanHandle cur
      if 1 < handle.length ∧ handle.getLast? = some '!' then
        let (text, cur) ← scanTagText false cur
        if text.isEmpty then .error .badTag
        else .ok (Token.tag (String.ofList handle) (upToZero text), cur)
      else
        let (text, cur) ← scanTagText false cur
        let suffix := upToZero (handle.drop 1 ++ text)
        if suffix.isEmpty then .ok (Token.tag "" "!", cur)
        else .ok (Token.tag "!" suffix, cur)
  let ends := blankNext cur.rest || (inFlow && cur.rest.head? == some ',')
  if ends then .ok (token, cur) else .error .badTag

/-- A part of a version number. -/
def scanVersionPart (cur : Cursor) : Scan (Nat × Cursor) :=
  let digits := cur.rest.takeWhile fun c => decide ('0' ≤ c) && decide (c ≤ '9')
  if digits.isEmpty || 9 < digits.length then .error .badDirective
  else
    .ok (digits.foldl (fun n c => n * 10 + (c.toNat - 48)) 0, cur.forward digits.length)

/-- A directive whose percent sign is next, up to the end of its line. -/
def scanDirective (cur : Cursor) : Scan (Token × Cursor) := do
  let name := (cur.rest.drop 1).takeWhile isNameChar
  let cur := cur.forward (name.length + 1)
  if name.isEmpty || !blankNext cur.rest then .error .badDirective
  else
    let cur := cur.skipWhile isBlank
    let (token, cur) ←
      if name = "YAML".toList then do
        let (major, cur) ← scanVersionPart cur
        if cur.rest.head? != some '.' then .error .badDirective
        else
          let (minor, cur) ← scanVersionPart (cur.forward 1)
          .ok (Token.versionDirective major minor, cur)
      else if name = "TAG".toList then do
        let (handle, cur) ← scanHandle cur
        if handle.length != 1 && handle.getLast? != some '!' then .error .badDirective
        else if !cur.rest.head?.any isBlank then .error .badDirective
        else
          let (text, cur) ← scanTagText true (cur.skipWhile isBlank)
          if text.isEmpty || !blankNext cur.rest then .error .badDirective
          else .ok (Token.tagDirective (String.ofList handle) (upToZero text), cur)
      else .error .badDirective
    let cur := cur.skipWhile isBlank
    let cur := if cur.rest.head? == some '#' then cur.skipLine else cur
    if cur.atLineEnd then .ok (token, cur.takeBreak.2) else .error .badDirective

end SchemaWeave.Yaml
