import SchemaWeave.Number
import SchemaWeave.Decimal.Shortest
import SchemaWeave.Text.Lines

/-!
A numeral without fraction and exponent that fits 64 bits is an integer, every other numeral a
float. A float is read in two roundings: the leading digits that fit an unsigned 64-bit word are
rounded to a float, which is then multiplied with, or divided by, the float nearest to the power of
ten that remains.
-/

namespace SchemaWeave.Json

/-- Decimal exponents from -5 to 15 are written positionally, and positive exponents with a sign. -/
def floatNotation : FloatNotation := ⟨-5, 15, true⟩

/-- The text of an integer. -/
def intText (n : Int) : List Char :=
  if n < 0 then '-' :: Decimal.digitChars n.natAbs else Decimal.digitChars n.natAbs

def numberText : Number → List Char
  | .int n => intText n
  | .float x => floatNotation.render x

def isDigit (c : Char) : Bool := decide ('0' ≤ c) && decide (c ≤ '9')

def digitValue (c : Char) : Nat := c.toNat - 48

/-- Appends digits to a number while it stays below `2 ^ 64`; also the digits left over. -/
def accumulate (significand : Nat) : List Char → Nat × List Char
  | [] => (significand, [])
  | c :: rest =>
    let next := significand * 10 + digitValue c
    if next < Number.wordSize then accumulate next rest else (significand, c :: rest)

/-- The float nearest to a power of ten that is in range. -/
def powerOfTen (e : Nat) : Option Binary64 := Binary64.ofDecimal false 1 e

/-- Multiplies a float with `10 ^ exponent` in the range of floats; an exponent below `-308` is
divided out in steps, a number that overflows is refused. -/
def scaleByTen : Nat → Binary64 → Int → Option Binary64
  | 0, x, _ => some (.zero x.negative)
  | fuel + 1, x, exponent =>
    if x.isZero then some x
    else if 308 < exponent then none
    else if 0 ≤ exponent then do x.scaleUp (← powerOfTen exponent.toNat)
    else if -308 ≤ exponent then do x.scaleDown (← powerOfTen (-exponent).toNat)
    else do scaleByTen fuel (← x.scaleDown (← powerOfTen 308)) (exponent + 308)

/-- The float for a significand and an exponent of ten. -/
def floatOfParts (negative : Bool) (significand : Nat) (exponent : Int) : Option Binary64 := do
  let x ← Binary64.ofInt significand
  scaleByTen 4 { x with negative } exponent

/-- The parts of a numeral. -/
structure Numeral where
  negative : Bool
  whole : List Char
  fraction : Option (List Char)
  exponent : Option Int
  deriving Repr

/-- The value of a numeral; `none` when it is out of the range of floats. -/
def Numeral.value (n : Numeral) : Option Number :=
  let (significand, dropped) := accumulate 0 n.whole
  match n.fraction, n.exponent with
  | none, none =>
    if dropped.isEmpty then
      if !n.negative then some (.int significand)
      else if 0 < significand ∧ 2 * significand ≤ Number.wordSize then some (.int (-significand))
      else (floatOfParts true significand 0).map .float
    else (floatOfParts n.negative significand dropped.length).map .float
  | fraction, exponent =>
    let places := fraction.getD []
    let (significand, unread) := accumulate significand places
    let exponent := (dropped.length : Int) - (places.length - unread.length) + exponent.getD 0
    (floatOfParts n.negative significand exponent).map .float

/-- Why a numeral cannot be read. -/
inductive NumeralFault where
  | malformed
  | unfinished
  | outOfRange
  deriving DecidableEq, Repr

/-- Reading either goes on or stops with a fault and the number of bytes that are left then. -/
abbrev NumeralResult := Except (NumeralFault × Nat)

/-- At least one digit has to stand here. -/
def someDigits (cs : List Char) : NumeralResult (List Char × List Char) :=
  let digits := cs.takeWhile isDigit
  if digits.isEmpty then
    .error (if cs.isEmpty then .unfinished else .malformed, Text.byteLength cs - 1)
  else .ok (digits, cs.dropWhile isDigit)

/-- The digits before the point: a leading zero stands alone. -/
def wholeDigits (cs : List Char) : NumeralResult (List Char × List Char) :=
  match cs with
  | '0' :: rest =>
    match rest with
    | c :: more =>
      if isDigit c then .error (.malformed, Text.byteLength more) else .ok (['0'], rest)
    | [] => .ok (['0'], [])
  | _ => someDigits cs

/-- The fraction, if a point follows. -/
def fractionDigits (cs : List Char) : NumeralResult (Option (List Char) × List Char) :=
  match cs with
  | '.' :: rest => do
    let (digits, rest) ← someDigits rest
    .ok (some digits, rest)
  | _ => .ok (none, cs)

def digitsValue (digits : List Char) : Nat :=
  digits.foldl (fun n c => n * 10 + digitValue c) 0

/-- The greatest exponent that is read to its end. -/
def maxExponent : Nat := 2147483647

/-- The digits after the first one that makes a number too great for an exponent. -/
def digitsAfterOverflow (value : Nat) : List Char → List Char
  | [] => []
  | c :: rest =>
    let next := value * 10 + digitValue c
    if maxExponent < next then rest else digitsAfterOverflow next rest

/-- A written exponent. -/
structure Exponent where
  negative : Bool
  digits : List Char

def Exponent.value (e : Exponent) : Int :=
  if e.negative then -(digitsValue e.digits : Int) else digitsValue e.digits

/-- The exponent, if its mark follows. -/
def exponentPart (cs : List Char) : NumeralResult (Option Exponent × List Char) :=
  let signed (negative : Bool) (cs : List Char) : NumeralResult (Option Exponent × List Char) := do
    let (digits, rest) ← someDigits cs
    .ok (some ⟨negative, digits⟩, rest)
  match cs with
  | [] => .ok (none, [])
  | c :: rest =>
    if c = 'e' ∨ c = 'E' then
      match rest with
      | '-' :: more => signed true more
      | '+' :: more => signed false more
      | _ => signed false rest
    else .ok (none, cs)

/-- Reads a numeral whose sign has been taken. One that is out of range is refused after its last
digit, or after the digit that made its exponent too great. -/
def numeral (negative : Bool) (cs : List Char) : NumeralResult (Number × List Char) := do
  let (whole, rest) ← wholeDigits cs
  let (fraction, rest) ← fractionDigits rest
  let (exponent, rest) ← exponentPart rest
  match Numeral.value ⟨negative, whole, fraction, exponent.map Exponent.value⟩ with
  | some n => .ok (n, rest)
  | none =>
    let unread := (exponent.map fun e => digitsAfterOverflow 0 e.digits).getD []
    .error (.outOfRange, Text.byteLength unread + Text.byteLength rest)

end SchemaWeave.Json
