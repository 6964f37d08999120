import SchemaWeave.Text.Table

/-!
Three classes of characters: letters, letters and numbers, and word characters, which also take in
combining marks, connector punctuation and joiners. Within ASCII they are the usual ones. Word
characters follow an earlier edition of the character database, so that the letters and digits
encoded last are none.
-/

namespace SchemaWeave.Text

/-- Whether a code point lies in one of the ranges. -/
def inRanges (n : Nat) (ranges : List (Nat × Nat)) : Bool :=
  ranges.any fun (first, last) => decide (first ≤ n) && decide (n ≤ last)

def isAsciiLetter (c : Char) : Bool :=
  (decide ('a' ≤ c) && decide (c ≤ 'z')) || (decide ('A' ≤ c) && decide (c ≤ 'Z'))

def isAsciiDigit (c : Char) : Bool := decide ('0' ≤ c) && decide (c ≤ '9')

/-- Characters with the Alphabetic property. -/
def isLetter (c : Char) : Bool :=
  if c.toNat < 128 then isAsciiLetter c
  else inRanges c.toNat Table.alphabetic || inRanges c.toNat Table.newestAlphabetic

/-- Letters, and every kind of number. -/
def isLetterOrNumber (c : Char) : Bool :=
  if c.toNat < 128 then isAsciiLetter c || isAsciiDigit c
  else
    isLetter c || inRanges c.toNat Table.decimalDigits || inRanges c.toNat Table.newestDigits ||
      inRanges c.toNat Table.otherNumbers

/-- Letters, marks, decimal digits, connectors and joiners. -/
def isWordChar (c : Char) : Bool :=
  if c.toNat < 128 then isAsciiLetter c || isAsciiDigit c || c == '_'
  else
    inRanges c.toNat Table.alphabetic || inRanges c.toNat Table.marks ||
      inRanges c.toNat Table.decimalDigits || inRanges c.toNat Table.connectors

/-- A name of a declaration or of a package alias: a letter or underscore, then letters, numbers
and underscores. -/
def isIdentifier : List Char → Bool
  | [] => false
  | c :: rest =>
    (isLetter c || c == '_') && rest.all fun c => isLetterOrNumber c || c == '_'

end SchemaWeave.Text
