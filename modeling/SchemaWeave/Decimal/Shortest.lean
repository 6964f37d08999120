import SchemaWeave.Decimal.Binary64

/-!
Every real near a binary64 number rounds to it; of the decimals in that interval the written one
has the fewest digits, and among those it is the nearest, a tie going to the even last digit.
-/

namespace SchemaWeave

/-- The positive decimal `digits * 10 ^ exponent`. -/
structure Decimal where
  digits : Nat
  exponent : Int
  deriving DecidableEq, Repr

namespace Decimal

/-- The decimal digits of a number, most significant first. -/
def digitChars (n : Nat) : List Char := Nat.toDigits 10 n

/-- Drops trailing zeros of the digits, at most `fuel` of them. -/
def normalize : Nat → Decimal → Decimal
  | 0, d => d
  | fuel + 1, d =>
    if d.digits ≠ 0 ∧ d.digits % 10 = 0 then normalize fuel ⟨d.digits / 10, d.exponent + 1⟩ else d

/-- Multiplies `n` by `10 ^ e`, or `d` by `10 ^ -e`, so that the pair stands for
`n / d * 10 ^ e`. -/
def shift (n d : Nat) (e : Int) : Nat × Nat :=
  if 0 ≤ e then (n * Nat.pow 10 e.toNat, d) else (n, d * Nat.pow 10 (-e).toNat)

/-- How often `n` has to be multiplied by ten to reach `d`, at most `fuel` times. -/
def leadingZeros (d : Nat) : Nat → Nat → Nat
  | 0, _ => 0
  | fuel + 1, n => if d ≤ n then 0 else leadingZeros d fuel (n * 10) + 1

/-- The `e` with `10 ^ e ≤ n / d < 10 ^ (e + 1)`. -/
def magnitude (n d : Nat) : Int :=
  if d ≤ n then ((digitChars (n / d)).length : Int) - 1 else -(leadingZeros d 400 n : Int)

end Decimal

namespace Binary64

/-- The reals that round to a number, as bounds in quarters of its step `2 ^ scale`; they belong to
the interval themselves exactly when the significand is even. -/
structure Interval where
  low : Nat
  high : Nat
  closed : Bool

/-- Below a power of two the numbers lie twice as close, so the lower half is shorter there. -/
def interval (x : Binary64) : Interval where
  low :=
    (4 * x.significand - (if x.significand = leadingBit ∧ 0 < x.scale then 1 else 2)) <<< x.scale
  high := (4 * x.significand + 2) <<< x.scale
  closed := x.significand % 2 == 0

/-- Whether the fraction `n / d`, in quarter steps, lies in the interval. -/
def Interval.contains (i : Interval) (n d : Nat) : Bool :=
  if i.closed then decide (i.low * d ≤ n) && decide (n ≤ i.high * d)
  else decide (i.low * d < n) && decide (n < i.high * d)

/-- The best decimal on the grid of `10 ^ e`, when one of the two neighbours of `x` on that grid
reads back as `x`. -/
def onGrid? (x : Binary64) (e : Int) : Option Decimal :=
  let quarters := 4 * x.steps
  let unit := 4 * stepsPerUnit
  let (n, d) := Decimal.shift x.steps stepsPerUnit (-e)
  let below := n / d
  let fits (c : Nat) : Bool :=
    let (cn, cd) := Decimal.shift (c * unit) 1 e
    x.interval.contains cn cd
  let rest := n % d
  let upperFirst := decide (d < 2 * rest) || (decide (2 * rest = d) && below % 2 == 1)
  let (first, second) := if upperFirst then (below + 1, below) else (below, below + 1)
  if quarters = 0 then some ⟨0, 0⟩
  else if fits first then some ⟨first, e⟩
  else if fits second then some ⟨second, e⟩
  else none

/-- Tries the grids from the coarsest, with one significant digit, to the finest needed. -/
def shortestFrom (x : Binary64) (e : Int) : Nat → Decimal
  | 0 => ⟨x.steps, -1074⟩
  | fuel + 1 =>
    match x.onGrid? e with
    | some d => d
    | none => shortestFrom x (e - 1) fuel

/-- The shortest decimal that reads back as `|x|`. Seventeen digits always suffice. -/
def shortest (x : Binary64) : Decimal :=
  (shortestFrom x (Decimal.magnitude x.steps stepsPerUnit) 18).normalize 400

end Binary64

/-- How a format writes floating-point numbers: the decimal exponents that are written
positionally, and whether a positive exponent gets a sign. -/
structure FloatNotation where
  lowest : Int
  highest : Int
  plusSign : Bool

namespace FloatNotation

/-- Digits with a point, at least one digit on either side of it. -/
def positional (digits : List Char) (exponent : Int) : List Char :=
  if 0 ≤ exponent then digits ++ List.replicate exponent.toNat '0' ++ ['.', '0']
  else
    let places := (-exponent).toNat
    if places < digits.length then
      digits.take (digits.length - places) ++ '.' :: digits.drop (digits.length - places)
    else '0' :: '.' :: List.replicate (places - digits.length) '0' ++ digits

/-- One digit, the others after a point if there are any, and the exponent of the first. -/
def scientific (plusSign : Bool) (digits : List Char) (leading : Int) : List Char :=
  let mantissa := match digits with
    | d :: rest@(_ :: _) => d :: '.' :: rest
    | short => short
  let sign := if leading < 0 then ['-'] else if plusSign then ['+'] else []
  mantissa ++ 'e' :: sign ++ Decimal.digitChars leading.natAbs

/-- The text of a number in this notation. -/
def render (notn : FloatNotation) (x : Binary64) : List Char :=
  let sign := if x.negative then ['-'] else []
  if x.isZero then sign ++ ['0', '.', '0']
  else
    let d := x.shortest
    let digits := Decimal.digitChars d.digits
    let leading := d.exponent + digits.length - 1
    if notn.lowest ≤ leading ∧ leading ≤ notn.highest then sign ++ positional digits d.exponent
    else sign ++ scientific notn.plusSign digits leading

end FloatNotation

end SchemaWeave
