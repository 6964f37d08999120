import SchemaWeave.Decimal.Binary64

/-!
An integer and a floating-point number are different things, also when they denote the same
quantity: `1` and `1.0` are never equal. Readers produce integers from the signed and the unsigned
64-bit range only; every larger literal is a float.
-/

namespace SchemaWeave

inductive Number where
  | int (value : Int)
  | float (value : Binary64)
  deriving DecidableEq, Repr

namespace Number

/-- The number of values of a 64-bit word, `2 ^ 64`. -/
def wordSize : Nat := 18446744073709551616

/-- Values that fit a signed 64-bit word. -/
def FitsInt64 (n : Int) : Prop := -9223372036854775808 ≤ n ∧ n < 9223372036854775808

/-- Values that fit an unsigned 64-bit word. -/
def FitsUInt64 (n : Int) : Prop := 0 ≤ n ∧ n < 18446744073709551616

instance (n : Int) : Decidable (FitsInt64 n) := inferInstanceAs (Decidable (_ ∧ _))
instance (n : Int) : Decidable (FitsUInt64 n) := inferInstanceAs (Decidable (_ ∧ _))

/-- Equality of values: kinds never mix, and the two float zeros are equal. -/
def same : Number → Number → Bool
  | .int a, .int b => a == b
  | .float a, .float b => a.sameValue b
  | _, _ => false

def isInteger : Number → Bool
  | .int _ => true
  | .float _ => false

/-- The nearest float. -/
def toBinary64? : Number → Option Binary64
  | .int n => Binary64.ofInt n
  | .float x => some x

/-- Addition. Integers stay integers while both terms and the sum fit a signed word; otherwise the
sum is taken in floating point, and `none` says that it overflows. -/
def add (a b : Number) : Option Number :=
  let inFloat := do return .float (← (← a.toBinary64?).add (← b.toBinary64?))
  match a, b with
  | .int x, .int y =>
    if FitsInt64 x ∧ FitsInt64 y ∧ FitsInt64 (x + y) then some (.int (x + y)) else inFloat
  | _, _ => inFloat

end Number

end SchemaWeave
