import SchemaWeave.Expr.Basic
import SchemaWeave.Decimal.Shortest
import SchemaWeave.Number

/-!
A numeral is an optional minus sign, digits, an optional fraction and an optional exponent; a point
or an exponent mark that no digit follows does not belong to it. Without fraction and exponent it
is an integer when it fits a signed 64-bit word; every other numeral is the nearest float.
-/

namespace SchemaWeave.Expr

def isDigit (c : Char) : Bool := decide ('0' ≤ c) && decide (c ≤ '9')

/-- The exponent of a numeral as it is written: its mark, its sign and its digits. -/
structure WrittenExponent where
  mark : Char
  sign : Option Char
  digits : List Char
  deriving DecidableEq, Repr

/-- A numeral as it is written. -/
structure Numeral where
  negative : Bool
  whole : List Char
  fraction : Option (List Char)
  exponent : Option WrittenExponent
  deriving DecidableEq, Repr

/-- At least one digit, and what follows the digits. -/
def someDigits? (cs : List Char) : Option (List Char × List Char) :=
  match cs.takeWhile isDigit with
  | [] => none
  | digits => some (digits, cs.dropWhile isDigit)

def fractionPart (cs : List Char) : Option (List Char) × List Char :=
  match cs with
  | '.' :: rest =>
    match someDigits? rest with
    | some (digits, rest) => (some digits, rest)
    | none => (none, cs)
  | _ => (none, cs)

def exponentSign (cs : List Char) : Option Char × List Char :=
  match cs with
  | c :: rest => if c = '+' ∨ c = '-' then (some c, rest) else (none, cs)
  | [] => (none, [])

def exponentPart (cs : List Char) : Option WrittenExponent × List Char :=
  match cs with
  | mark :: rest =>
    if mark = 'e' ∨ mark = 'E' then
      let (sign, rest) := exponentSign rest
      match someDigits? rest with
      | some (digits, rest) => (some ⟨mark, sign, digits⟩, rest)
      | none => (none, cs)
    else (none, cs)
  | [] => (none, [])

/-- The longest numeral at the beginning of a text. -/
def Numeral.read? (cs : List Char) : Option (Numeral × List Char) :=
  let (negative, unsigned) := match cs with
    | '-' :: rest => (true, rest)
    | _ => (false, cs)
  match someDigits? unsigned with
  | none => none
  | some (whole, rest) =>
    let (fraction, rest) := fractionPart rest
    let (exponent, rest) := exponentPart rest
    some (⟨negative, whole, fraction, exponent⟩, rest)

def WrittenExponent.text (e : WrittenExponent) : List Char := e.mark :: e.sign.toList ++ e.digits

/-- The numeral as it is written. -/
def Numeral.text (n : Numeral) : List Char :=
  (if n.negative then ['-'] else []) ++ n.whole ++
    (match n.fraction with
      | some digits => '.' :: digits
      | none => []) ++
    (match n.exponent with
      | some e => e.text
      | none => [])

/-- The number that a row of digits stands for. -/
def digitsValue (digits : List Char) : Nat :=
  digits.foldl (fun n c => n * 10 + (c.toNat - 48)) 0

def WrittenExponent.value (e : WrittenExponent) : Int :=
  if e.sign = some '-' then -(digitsValue e.digits : Int) else digitsValue e.digits

/-- The float nearest to a numeral, or an infinity. -/
def Numeral.toFloat (n : Numeral) : Literal :=
  let places := n.fraction.getD []
  let shift := (n.exponent.map WrittenExponent.value).getD 0
  match Binary64.ofDecimal n.negative (digitsValue (n.whole ++ places)) (shift - places.length) with
  | some x => .float x
  | none => .infinity n.negative

/-- The literal that a numeral stands for. -/
def Numeral.toLiteral (n : Numeral) : Literal :=
  let whole : Int := if n.negative then -(digitsValue n.whole : Int) else digitsValue n.whole
  if n.fraction.isNone ∧ n.exponent.isNone ∧ Number.FitsInt64 whole then .integer whole
  else n.toFloat

end SchemaWeave.Expr
