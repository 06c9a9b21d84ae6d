/-!
Decimal numbers as they are written: a sign, the digits read as one natural number, and the power
of ten that scales them. Nothing is rounded here, so two spellings of a number that differ only
in trailing zeros are two values of `Decimal`.

`Decimal.positional` writes a decimal without an exponent.
-/

namespace Selectors

/-- The value of a run of decimal digits, read from the left. -/
def digitsValue (digits : List Char) : Nat :=
  digits.foldl (fun n d => n * 10 + (d.toNat - '0'.toNat)) 0

/-- A number as written: `coefficient` times ten to the power `exponent`, with a sign that is kept
for zero too. -/
structure Decimal : Type where
  negative : Bool
  coefficient : Nat
  exponent : Int
deriving DecidableEq, Repr, Inhabited

namespace Decimal

/-- The digits of a decimal, the point put where it belongs and no exponent written. There are
digits on both sides of a point, and no point without a fraction. -/
def positional (d : Decimal) : String :=
  let digits := toString d.coefficient
  if 0 ≤ d.exponent then
    if d.coefficient = 0 then "0" else digits ++ String.ofList (List.replicate d.exponent.toNat '0')
  else
    let places := (-d.exponent).toNat
    let padded := List.replicate (places + 1 - digits.length) '0' ++ digits.toList
    let whole := padded.length - places
    String.ofList (padded.take whole) ++ "." ++ String.ofList (padded.drop whole)

end Decimal

end Selectors
