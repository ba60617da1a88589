import ByteLisp.Number.Double

/-!
# Shortest decimals

The decimal text of a double precision number has the fewest digits that still
identify it: among all numbers that round to the same double, one with the
fewest significant digits, and of those the one nearest to the exact value.
The choice is made in exact natural arithmetic.
-/

namespace ByteLisp

/-- The number `digits * 10 ^ exponent`. -/
structure Decimal where
  digits : Nat
  exponent : Int
deriving DecidableEq, Repr

/-- Where an exact tie between two nearest decimals goes. -/
inductive TieRule where
  /-- To the larger digits. -/
  | up
  /-- To the even last digit. -/
  | even
deriving DecidableEq, Repr

/-- A positive finite binary number `mantissa * 2 ^ exponent`. -/
structure Binary where
  mantissa : Nat
  exponent : Int
  /-- The neighbour below is half as far away as the neighbour above. -/
  narrowBelow : Bool
deriving DecidableEq, Repr

namespace Binary

/-- The absolute value of a finite double precision number. -/
def ofDouble (x : Double) : Binary :=
  let biased := x.magnitude / 0x10000000000000
  let fraction := x.magnitude % 0x10000000000000
  if biased = 0 then
    ⟨fraction.toNat, -1074, false⟩
  else
    ⟨(fraction + 0x10000000000000).toNat, (biased.toNat : Int) - 1075,
      fraction = 0 && 1 < biased⟩

/-- A quarter of the distance to the neighbour above, as a multiple of powers
of ten: `quarters * 2 ^ (exponent - 2)` and `units * 10 ^ grid` compare as
`quarters * num` and `units * den`. -/
def ratio (x : Binary) (grid : Int) : Nat × Nat :=
  let shift := x.exponent - 2
  (Nat.pow 2 shift.toNat * Nat.pow 10 (-grid).toNat,
    Nat.pow 2 (-shift).toNat * Nat.pow 10 grid.toNat)

/-- The power of ten just below the number, up to the roughness of the estimate
from its binary size. -/
def tenPower (x : Binary) : Int :=
  ((Nat.log2 x.mantissa : Int) + x.exponent) * 30103 / 100000

/-- The exact value as a decimal. -/
def exactDecimal (x : Binary) : Decimal :=
  if 0 ≤ x.exponent then ⟨x.mantissa * Nat.pow 2 x.exponent.toNat, 0⟩
  else ⟨x.mantissa * Nat.pow 5 (-x.exponent).toNat, x.exponent⟩

end Binary

/-- A binary number measured in units of a power of ten: its exact value as a
fraction, and the whole numbers of units that round to it. -/
structure Measure where
  numerator : Nat
  denominator : Nat
  /-- The whole units that the number contains. -/
  whole : Nat
  least : Nat
  greatest : Nat
deriving DecidableEq, Repr

namespace Measure

/-- The measure of a number in units of `10 ^ grid`. The ends of the interval of
values that round to a number belong to it exactly when its mantissa is even. -/
def ofBinary (x : Binary) (grid : Int) : Measure :=
  let (num, den) := x.ratio grid
  let low := (4 * x.mantissa - if x.narrowBelow then 1 else 2) * num
  let high := (4 * x.mantissa + 2) * num
  let exact := 4 * x.mantissa * num
  if x.mantissa % 2 = 0 then ⟨exact, den, exact / den, (low + den - 1) / den, high / den⟩
  else ⟨exact, den, exact / den, low / den + 1, (high - 1) / den⟩

/-- Whether a number of units rounds to the measured number. -/
def admits (measure : Measure) (units : Nat) : Bool :=
  measure.least ≤ units && units ≤ measure.greatest

/-- The multiple of `step` units nearest to the measured number among those that
round to it, when there are any: one of the two neighbours. The result counts
the steps. -/
def nearest? (measure : Measure) (tie : TieRule) (step : Nat) : Option Nat :=
  let below := measure.whole / step
  let above := below + 1
  let belowFits := measure.admits (below * step)
  let aboveFits := measure.admits (above * step)
  if belowFits && aboveFits then
    let twice := 2 * measure.numerator
    let middle := (below + above) * step * measure.denominator
    if twice < middle then some below
    else if middle < twice then some above
    else match tie with
      | .up => some above
      | .even => if below % 2 = 0 then some below else some above
  else if belowFits then some below
  else if aboveFits then some above
  else none

end Measure

namespace Decimal

/-- Moves up to `limit` trailing zeros of the digits into the exponent. -/
def strip : Nat → Decimal → Decimal
  | 0, decimal => decimal
  | limit + 1, decimal =>
    if decimal.digits % 10 = 0 then strip limit ⟨decimal.digits / 10, decimal.exponent + 1⟩
    else decimal

/-- Powers of ten from the largest on, each with its exponent. -/
def steps : List (Nat × Nat) :=
  (List.range 20).map fun count => (19 - count, Nat.pow 10 (19 - count))

/-- The shortest decimal that identifies a positive binary number. Grids are
tried from the coarsest on, up to at least seventeen digits; if none had a hit
the exact value would be the answer. -/
def shortest (tie : TieRule) (x : Binary) : Decimal :=
  let finest := x.tenPower - 17
  let measure := Measure.ofBinary x finest
  let found := steps.findSome? fun (coarser, step) =>
    (measure.nearest? tie step).map fun units => (⟨units, finest + coarser⟩ : Decimal)
  match found with
  | some decimal => decimal.strip 20
  | none => x.exactDecimal

/-- The digits in order. -/
def digitText (decimal : Decimal) : List Char :=
  Nat.toDigits 10 decimal.digits

/-- The position of the decimal point counted from before the first digit. -/
def point (decimal : Decimal) : Int :=
  decimal.digitText.length + decimal.exponent

/-- The decimal written out without an exponent, and without a point when it is
an integer. -/
def positional (decimal : Decimal) : List Char :=
  let digits := decimal.digitText
  let point := decimal.point
  if 0 ≤ decimal.exponent then
    digits ++ List.replicate decimal.exponent.toNat '0'
  else if 0 < point then
    digits.take point.toNat ++ '.' :: digits.drop point.toNat
  else
    '0' :: '.' :: (List.replicate (-point).toNat '0' ++ digits)

end Decimal

end ByteLisp
