/-!
A finite binary64 number is a sign, a significand below `2 ^ 53` and a scale; its magnitude is
`significand * 2 ^ scale` steps of `2 ^ -1074`, the least positive number. All arithmetic is exact
on natural numbers and rounds once, to the nearest number, a tie going to the even significand.
-/

namespace SchemaWeave

/-- A finite binary64 number. Both signs of zero are kept apart. -/
structure Binary64 where
  negative : Bool
  significand : Nat
  scale : Nat
  deriving DecidableEq, Repr, Inhabited

namespace Binary64

/-- Steps of `2 ^ -1074` that make one. -/
def stepsPerUnit : Nat := 1 <<< 1074

/-- The leading bit of a full significand, `2 ^ 52`. -/
def leadingBit : Nat := 4503599627370496

/-- The scale of the largest finite numbers. -/
def maxScale : Nat := 2045

/-- The integer nearest to `n / d`, a tie going to the even one. -/
def roundHalfEven (n d : Nat) : Nat :=
  let q := n / d
  let r := n % d
  if 2 * r < d then q else if d < 2 * r then q + 1 else q + q % 2

/-- Rounds `n / d` steps to a number of the given sign; `none` when the magnitude overflows. -/
def ofSteps (negative : Bool) (n d : Nat) : Option Binary64 :=
  let whole := n / d
  let scale := if whole < 2 * leadingBit then 0 else Nat.log2 whole - 52
  let significand := roundHalfEven n (d <<< scale)
  let (significand, scale) :=
    if significand = 2 * leadingBit then (leadingBit, scale + 1) else (significand, scale)
  if maxScale < scale then none else some ⟨negative, significand, scale⟩

/-- The magnitude in steps of `2 ^ -1074`. -/
def steps (x : Binary64) : Nat := x.significand <<< x.scale

/-- The signed value in steps of `2 ^ -1074`. -/
def signedSteps (x : Binary64) : Int :=
  if x.negative then -(x.steps : Int) else x.steps

def zero (negative : Bool) : Binary64 := ⟨negative, 0, 0⟩

def isZero (x : Binary64) : Bool := x.significand == 0

/-- Equality of values: the two zeros are equal, all other numbers only to themselves. -/
def sameValue (x y : Binary64) : Bool :=
  x == y || (x.isZero && y.isZero)

/-- The number nearest to an integer. -/
def ofInt (n : Int) : Option Binary64 :=
  ofSteps (decide (n < 0)) (n.natAbs * stepsPerUnit) 1

/-- The rounded sum. A sum of zero is negative only when both terms are. -/
def add (x y : Binary64) : Option Binary64 :=
  let total := x.signedSteps + y.signedSteps
  if total = 0 then some (zero (x.negative && y.negative))
  else ofSteps (decide (total < 0)) total.natAbs 1

/-- The rounded product of magnitudes, with the sign of `x`. -/
def scaleUp (x y : Binary64) : Option Binary64 :=
  ofSteps x.negative (x.steps * y.steps) stepsPerUnit

/-- The rounded quotient of magnitudes, with the sign of `x`. -/
def scaleDown (x y : Binary64) : Option Binary64 :=
  ofSteps x.negative (x.steps * stepsPerUnit) y.steps

/-- The number nearest to `digits * 10 ^ exponent`; `none` when it overflows. Exponents so large or
so small that the answer is clear are settled without forming the power. -/
def ofDecimal (negative : Bool) (digits : Nat) (exponent : Int) : Option Binary64 :=
  let leading := exponent + (Nat.log2 digits : Int) / 3
  if digits = 0 then some (zero negative)
  else if 400 < exponent then none
  else if leading < -400 then some (zero negative)
  else if 0 ≤ exponent then
    ofSteps negative (digits * Nat.pow 10 exponent.toNat * stepsPerUnit) 1
  else ofSteps negative (digits * stepsPerUnit) (Nat.pow 10 (-exponent).toNat)

end Binary64

end SchemaWeave
