import Selectors.Decimal.Binary

/-!
The shortest decimal that reads back as a given binary number. Around each binary number lies the
interval of reals that round to it; of all decimal grids `10 ^ p` the coarsest one with a point in
that interval gives the digits. Where two neighbours of the number on that grid both lie in the
interval the nearer one is taken, and of two equally near ones the larger.

`Decimal.text` is the text of a number as it is shown: shortest digits, never an exponent.
-/

namespace Selectors

/-- The reals that round to one binary number, over a common denominator: the number itself, the
two ends, and whether the ends belong to it. -/
structure RoundingInterval : Type where
  value : Nat
  low : Nat
  high : Nat
  denominator : Nat
  closed : Bool

namespace RoundingInterval

/-- The interval around `mantissa · 2 ^ exponent`. Below a power of two the numbers lie twice as
close, so there the lower half-gap is half as wide. The ends round to an even mantissa. -/
def around (mantissa : Nat) (exponent : Int) : RoundingInterval :=
  let scale := Nat.pow 2 (exponent - 2).toNat
  { value := 4 * mantissa * scale
    low := (if mantissa = Nat.pow 2 52 then 4 * mantissa - 1 else 4 * mantissa - 2) * scale
    high := (4 * mantissa + 2) * scale
    denominator := Nat.pow 2 (2 - exponent).toNat
    closed := mantissa % 2 = 0 }

/-- The same interval measured in units of ten to the power `exponent`. -/
def inUnits (i : RoundingInterval) (exponent : Int) : RoundingInterval :=
  let up := Nat.pow 10 (-exponent).toNat
  { i with
    value := i.value * up
    low := i.low * up
    high := i.high * up
    denominator := i.denominator * Nat.pow 10 exponent.toNat }

/-- Whether a whole number of units lies in the interval. -/
def holds (i : RoundingInterval) (n : Nat) : Bool :=
  let point := n * i.denominator
  if i.closed then i.low ≤ point && point ≤ i.high else i.low < point && point < i.high

/-- The whole number of units in the interval that is nearest to its value, the larger of two
equally near ones. -/
def nearest? (i : RoundingInterval) : Option Nat :=
  let down := i.value / i.denominator
  match i.holds down, i.holds (down + 1) with
  | true, true =>
    if 2 * (i.value % i.denominator) < i.denominator then some down else some (down + 1)
  | true, false => some down
  | false, true => some (down + 1)
  | false, false => none

/-- Looks for a point of the interval on ever finer decimal grids, at most `tries` of them. -/
def coarsestPoint (i : RoundingInterval) : Nat → Int → Nat × Int
  | 0, exponent => ((i.inUnits exponent).value / (i.inUnits exponent).denominator, exponent)
  | tries + 1, exponent =>
    match (i.inUnits exponent).nearest? with
    | some n => (n, exponent)
    | none => coarsestPoint i tries (exponent - 1)

end RoundingInterval

/-- The shortest decimal that rounds to `mantissa · 2 ^ exponent`. The search starts on a grid
coarser than the number; seventeen digits always suffice. -/
def shortestDecimal (negative : Bool) (mantissa : Nat) (exponent : Int) : Decimal :=
  if mantissa = 0 then ⟨negative, 0, 0⟩
  else
    let start := (mantissa.log2 + exponent) * 30103 / 100000 + 2
    let (coefficient, power) := (RoundingInterval.around mantissa exponent).coarsestPoint 21 start
    ⟨negative, coefficient, power⟩

/-- The text of a decimal rounded to the binary format: a minus sign if it is negative, then the
shortest digits that read back as the same number, without an exponent, or `inf`. -/
def Decimal.text (d : Decimal) : String :=
  let sign := if d.negative then "-" else ""
  match d.magnitude with
  | .infinite => sign ++ "inf"
  | .finite mantissa exponent =>
    sign ++ (shortestDecimal d.negative mantissa exponent).positional

end Selectors
