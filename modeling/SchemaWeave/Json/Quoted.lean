import SchemaWeave.Text.Lines

/-!
A string is written between double quotes; the quote, the backslash and the control characters
below U+0020 are escaped, everything else stands for itself. A reader also takes the escapes that
are never written: the solidus and any character by its UTF-16 code units.
-/

namespace SchemaWeave.Json

def hexDigit (n : Nat) : Char :=
  if n < 10 then Char.ofNat (48 + n) else Char.ofNat (87 + n)

/-- How one character is written inside quotes. -/
def escapeChar (c : Char) : List Char :=
  if c = '"' then ['\\', '"']
  else if c = '\\' then ['\\', '\\']
  else if c = '\x08' then ['\\', 'b']
  else if c = '\x0c' then ['\\', 'f']
  else if c = '\n' then ['\\', 'n']
  else if c = '\r' then ['\\', 'r']
  else if c = '\t' then ['\\', 't']
  else if c.toNat < 32 then
    ['\\', 'u', '0', '0', hexDigit (c.toNat / 16), hexDigit (c.toNat % 16)]
  else [c]

/-- The quoted form of a text. -/
def quote (text : List Char) : List Char :=
  '"' :: text.flatMap escapeChar ++ ['"']

/-- The value of a hexadecimal digit of either case. -/
def hexValue? (c : Char) : Option Nat :=
  if '0' ≤ c ∧ c ≤ '9' then some (c.toNat - 48)
  else if 'a' ≤ c ∧ c ≤ 'f' then some (c.toNat - 87)
  else if 'A' ≤ c ∧ c ≤ 'F' then some (c.toNat - 55)
  else none

/-- Why quoted text cannot be read. -/
inductive QuoteFault where
  | unterminated
  | controlCharacter
  | badEscape
  | loneSurrogate
  | missingSurrogate
  deriving DecidableEq, Repr

/-- Reading either goes on or stops with a fault and the number of bytes that are left then. -/
abbrev QuoteResult := Except (QuoteFault × Nat)

/-- What is left after one byte of a text, which need not be the whole of its first character. -/
def bytesAfterOne (cs : List Char) : Nat := Text.byteLength cs - 1

/-- Four hexadecimal digits. What stands in their place is taken as four bytes. -/
def hexUnit (cs : List Char) : QuoteResult (Nat × List Char) :=
  let bad : QuoteResult (Nat × List Char) :=
    let bytes := Text.byteLength cs
    if bytes < 4 then .error (.unterminated, 0) else .error (.badEscape, bytes - 4)
  match cs with
  | a :: b :: c :: d :: rest =>
    match hexValue? a, hexValue? b, hexValue? c, hexValue? d with
    | some a, some b, some c, some d => .ok (((a * 16 + b) * 16 + c) * 16 + d, rest)
    | _, _, _, _ => bad
  | _ => bad

/-- Checks for the text that has to follow the first half of a surrogate pair. -/
def expectChar (expected : Char) : List Char → QuoteResult (Unit × List Char)
  | [] => .error (.unterminated, 0)
  | c :: rest =>
    if c = expected then .ok ((), rest) else .error (.missingSurrogate, bytesAfterOne (c :: rest))

/-- The character written by its code units, after `\u`. Halves of a surrogate pair must come
together and in order. -/
def unicodeEscape (cs : List Char) : QuoteResult (Char × List Char) := do
  let (first, rest) ← hexUnit cs
  if 0xDC00 ≤ first ∧ first ≤ 0xDFFF then .error (.loneSurrogate, Text.byteLength rest)
  else if 0xD800 ≤ first ∧ first ≤ 0xDBFF then
    let ((), rest) ← expectChar '\\' rest
    let ((), rest) ← expectChar 'u' rest
    let (second, rest) ← hexUnit rest
    if 0xDC00 ≤ second ∧ second ≤ 0xDFFF then
      .ok (Char.ofNat ((first - 0xD800) * 0x400 + (second - 0xDC00) + 0x10000), rest)
    else .error (.loneSurrogate, Text.byteLength rest)
  else .ok (Char.ofNat first, rest)

/-- The character that a one-letter escape stands for. -/
def shortEscape? (c : Char) : Option Char :=
  if c = '"' ∨ c = '\\' ∨ c = '/' then some c
  else if c = 'b' then some '\x08'
  else if c = 'f' then some '\x0c'
  else if c = 'n' then some '\n'
  else if c = 'r' then some '\r'
  else if c = 't' then some '\t'
  else none

/-- Reads the text after an opening quote; every step takes at least one character, so one step more
than there are characters suffices. -/
def unquote : Nat → List Char → QuoteResult (List Char × List Char)
  | 0, _ => .error (.unterminated, 0)
  | _ + 1, [] => .error (.unterminated, 0)
  | fuel + 1, c :: rest =>
    if c = '"' then .ok ([], rest)
    else if c = '\\' then
      match rest with
      | [] => .error (.unterminated, 0)
      | e :: rest =>
        if e = 'u' then do
          let (c, rest) ← unicodeEscape rest
          let (text, rest) ← unquote fuel rest
          .ok (c :: text, rest)
        else
          match shortEscape? e with
          | some c => do
            let (text, rest) ← unquote fuel rest
            .ok (c :: text, rest)
          | none => .error (.badEscape, bytesAfterOne (e :: rest))
    else if c.toNat < 32 then .error (.controlCharacter, Text.byteLength rest)
    else do
      let (text, rest) ← unquote fuel rest
      .ok (c :: text, rest)

end SchemaWeave.Json
