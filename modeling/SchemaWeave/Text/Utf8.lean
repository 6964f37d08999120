/-!
Texts as bytes, and bytes as texts. Bytes that are no text are read as well as can be: a byte that
begins no character, and the bytes of a character that breaks off, each count as one replacement
character.
-/

namespace SchemaWeave.Text

/-- The bytes of a text. -/
def toBytes (cs : List Char) : List UInt8 := cs.flatMap String.utf8EncodeChar

/-- What stands for bytes that are no character. -/
def replacement : Char := '\ufffd'

/-- What the first byte of a character says: how many bytes follow, the first bits of the code
point, and between which bounds the next byte lies. -/
structure LeadByte where
  more : Nat
  bits : Nat
  least : UInt8
  greatest : UInt8

/-- The bounds of the second byte leave out longer forms than needed, surrogates, and code points
that are too great. -/
def LeadByte.of? (b : UInt8) : Option LeadByte :=
  let n := b.toNat
  if n < 0x80 then some ⟨0, n, 0, 0⟩
  else if n < 0xC2 then none
  else if n < 0xE0 then some ⟨1, n % 32, 0x80, 0xBF⟩
  else if n = 0xE0 then some ⟨2, 0, 0xA0, 0xBF⟩
  else if n = 0xED then some ⟨2, 13, 0x80, 0x9F⟩
  else if n < 0xF0 then some ⟨2, n % 16, 0x80, 0xBF⟩
  else if n = 0xF0 then some ⟨3, 0, 0x90, 0xBF⟩
  else if n < 0xF4 then some ⟨3, n % 8, 0x80, 0xBF⟩
  else if n = 0xF4 then some ⟨3, 4, 0x80, 0x8F⟩
  else none

/-- The character that goes on with the given bytes, and the bytes after it. -/
def continued : Nat → Nat → UInt8 → UInt8 → List UInt8 → Char × List UInt8
  | 0, code, _, _, bytes => (Char.ofNat code, bytes)
  | _ + 1, _, _, _, [] => (replacement, [])
  | more + 1, code, least, greatest, b :: bytes =>
    if least ≤ b ∧ b ≤ greatest then continued more (code * 64 + b.toNat % 64) 0x80 0xBF bytes
    else (replacement, b :: bytes)

/-- The first characters of bytes; every one takes a byte, so the number of bytes suffices. -/
def charsOfBytes : Nat → List UInt8 → List Char
  | 0, _ => []
  | _ + 1, [] => []
  | fuel + 1, b :: bytes =>
    match LeadByte.of? b with
    | none => replacement :: charsOfBytes fuel bytes
    | some lead =>
      let (c, rest) := continued lead.more lead.bits lead.least lead.greatest bytes
      c :: charsOfBytes fuel rest

/-- The text that bytes stand for. -/
def ofBytes (bytes : List UInt8) : List Char := charsOfBytes bytes.length bytes

end SchemaWeave.Text
