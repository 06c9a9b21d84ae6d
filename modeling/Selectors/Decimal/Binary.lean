import Selectors.Decimal

/-!
Rounding to the 64-bit binary format: 53 significant bits, the smallest unit two to the power
-1074, and everything from half a unit above the largest finite number on is infinite. All of it
is exact arithmetic on natural numbers; a tie goes to the even neighbour.

`Magnitude.ofRatio` rounds a quotient, `Decimal.magnitude` a decimal as written.
-/

namespace Selectors

/-- The size of a binary number, its sign left out: `mantissa` times two to the power `exponent`,
or infinite. -/
inductive Magnitude : Type where
  | finite (mantissa : Nat) (exponent : Int)
  | infinite
deriving DecidableEq, Repr

/-- The quotient rounded to the nearest natural number, a tie to the even one. -/
def roundHalfEven (numerator denominator : Nat) : Nat :=
  let down := numerator / denominator
  let twice := 2 * (numerator % denominator)
  if twice < denominator then down
  else if denominator < twice then down + 1
  else if down % 2 = 0 then down else down + 1

namespace Magnitude

/-- The exponent of the smallest unit. -/
def leastExponent : Int := -1074

/-- The exponent of the largest unit. -/
def greatestExponent : Int := 971

/-- Two natural numbers whose quotient is the given one divided by two to the power `exponent`. -/
def shift (numerator denominator : Nat) (exponent : Int) : Nat × Nat :=
  if 0 ≤ exponent then (numerator, denominator * Nat.pow 2 exponent.toNat)
  else (numerator * Nat.pow 2 (-exponent).toNat, denominator)

/-- The exponent of the highest bit of a quotient of positive numbers. -/
def highestBit (numerator denominator : Nat) : Int :=
  let guess : Int := (numerator.log2 : Int) - (denominator.log2 : Int)
  let (n, d) := shift numerator denominator guess
  if n < d then guess - 1 else guess

/-- A quotient rounded to the nearest number of the format. -/
def ofRatio (numerator denominator : Nat) : Magnitude :=
  if numerator = 0 then finite 0 leastExponent
  else
    let unit := max (highestBit numerator denominator - 52) leastExponent
    let (n, d) := shift numerator denominator unit
    let mantissa := roundHalfEven n d
    let (mantissa, unit) :=
      if mantissa = Nat.pow 2 53 then (Nat.pow 2 52, unit + 1) else (mantissa, unit)
    if greatestExponent < unit then infinite else finite mantissa unit

/-- A natural number rounded to the format. -/
def ofNat (n : Nat) : Magnitude := ofRatio n 1

/-- The rounded product. -/
def mul : Magnitude → Magnitude → Magnitude
  | finite m p, finite n q =>
    let (numerator, denominator) := shift (m * n) 1 (-(p + q))
    ofRatio numerator denominator
  | _, _ => infinite

/-- Whether the number is finite. -/
def isFinite : Magnitude → Bool
  | finite _ _ => true
  | infinite => false

end Magnitude

/-- A decimal rounded to the binary format, its sign left out. A number of at least ten to the
power 310 is infinite and one below ten to the power -330 is zero, so that no power of ten that
is far out of range is ever computed. -/
def Decimal.magnitude (d : Decimal) : Magnitude :=
  if d.coefficient = 0 then .finite 0 Magnitude.leastExponent
  else if 310 ≤ d.exponent then .infinite
  else if (toString d.coefficient).length + d.exponent < -330 then
    .finite 0 Magnitude.leastExponent
  else if 0 ≤ d.exponent then Magnitude.ofRatio (d.coefficient * Nat.pow 10 d.exponent.toNat) 1
  else Magnitude.ofRatio d.coefficient (Nat.pow 10 (-d.exponent).toNat)

end Selectors
