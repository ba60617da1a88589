import ByteLisp.Decimal.Shortest

/-!
# Numerals

A numeral is a number as it is written in JSON: a sign, digits, digits after a
point, and an exponent. Integers are the numerals without a point and without
an exponent; `-0` is not among them.
-/

namespace ByteLisp

/-- Decimal digits, the most significant one first. -/
abbrev Digits := List (Fin 10)

namespace Digits

/-- The digits of a natural number. -/
def ofNat (n : Nat) : Digits :=
  if n < 10 then [Fin.ofNat 10 n] else ofNat (n / 10) ++ [Fin.ofNat 10 n]

/-- The number that digits write. -/
def toNat (digits : Digits) : Nat :=
  digits.foldl (fun number digit => 10 * number + digit.val) 0

/-- The number with one more digit, up to a limit. -/
def grow? (limit number : Nat) (digit : Fin 10) : Option Nat :=
  let grown := 10 * number + digit.val
  if grown ≤ limit then some grown else none

/-- The number that digits write, up to a limit. -/
def upTo? (limit : Nat) (digits : Digits) : Option Nat :=
  digits.foldlM (grow? limit) 0

/-- The digits as characters. -/
def text (digits : Digits) : String :=
  String.ofList (digits.map fun digit => Nat.digitChar digit.val)

/-- A further digit shifts the number by one place. -/
theorem toNat_append_singleton (digits : Digits) (last : Fin 10) :
    toNat (digits ++ [last]) = 10 * toNat digits + last.val := by
  simp [toNat]

/-- The digits of a number write that number. -/
@[simp] theorem toNat_ofNat (n : Nat) : toNat (ofNat n) = n := by
  fun_induction ofNat n with
  | case1 n small => simp [toNat, Fin.ofNat, Nat.mod_eq_of_lt small]
  | case2 n large ih =>
    rw [toNat_append_singleton, ih]
    simp only [Fin.ofNat]
    omega

/-- The digits of a number within the limit write that number. -/
theorem upTo?_ofNat {limit n : Nat} (within : n ≤ limit) : upTo? limit (ofNat n) = some n := by
  fun_induction ofNat n with
  | case1 n small =>
    simp [upTo?, grow?, Fin.ofNat, Nat.mod_eq_of_lt small, within]
  | case2 n large ih =>
    have front := ih (by omega)
    simp only [upTo?] at front
    have whole : 10 * (n / 10) + n % 10 = n := by omega
    simp [upTo?, List.foldlM_append, front, grow?, Fin.ofNat, whole, within]

/-- Every number has at least one digit. -/
theorem ofNat_ne_nil (n : Nat) : ofNat n ≠ [] := by
  rw [ofNat]
  split <;> simp

end Digits

/-- A written number. -/
structure Numeral where
  negative : Bool := false
  /-- The digits before the point. -/
  whole : Digits
  /-- The digits after the point; there is no point when there are none. -/
  fraction : Digits := []
  /-- The exponent: whether it is negative, and its digits. -/
  exponent : Option (Bool × Digits) := none
deriving DecidableEq, Repr

namespace Numeral

/-- The numeral of an integer. -/
def ofInt (n : Int) : Numeral where
  negative := n < 0
  whole := Digits.ofNat n.natAbs

/-- The largest magnitude of an integer: it has 64 bits. -/
def maxMagnitude : Nat := UInt64.size - 1

/-- The integer that a numeral writes. -/
def int? (numeral : Numeral) : Option Int :=
  if numeral.fraction = [] ∧ numeral.exponent = none then
    match Digits.upTo? maxMagnitude numeral.whole with
    | none => none
    | some magnitude =>
      if numeral.negative then
        if magnitude = 0 then none else some (-(magnitude : Int))
      else some magnitude
  else none

/-- An integer of at most 64 bits can be read off its numeral. -/
theorem int?_ofInt {n : Int} (within : n.natAbs ≤ maxMagnitude) :
    (ofInt n).int? = some n := by
  simp only [int?, ofInt, Digits.upTo?_ofNat within]
  by_cases negative : n < 0
  · have nonzero : n.natAbs ≠ 0 := by omega
    simp only [negative, decide_true, and_self, if_true]
    rw [if_neg (by omega)]
    congr 1
    omega
  · simp only [negative, decide_false, and_self, if_true]
    simp
    omega

/-- The numeral as it is written. -/
def text (numeral : Numeral) : String :=
  let sign := if numeral.negative then "-" else ""
  let fraction := if numeral.fraction = [] then "" else "." ++ Digits.text numeral.fraction
  let exponent := match numeral.exponent with
    | none => ""
    | some (negative, digits) => "e" ++ (if negative then "-" else "+") ++ Digits.text digits
  sign ++ Digits.text numeral.whole ++ fraction ++ exponent

/-! ## Reading floating point numbers

Digits are gathered in a 64-bit significand for as long as they fit. Digits
before the point that do not fit only raise the exponent, those after it are
dropped. The significand is then scaled by one power of ten, which may differ
from the nearest number in the last place. -/

/-- A significand with the power of ten by which it is to be scaled. -/
structure Scaled where
  significand : Nat := 0
  exponent : Int := 0
  /-- Whether all digits so far have fitted. -/
  fits : Bool := true
deriving DecidableEq, Repr

namespace Scaled

/-- The significand with one more digit, as long as all digits fit. -/
def grown? (scaled : Scaled) (digit : Fin 10) : Option Nat :=
  if scaled.fits then Digits.grow? maxMagnitude scaled.significand digit else none

/-- Takes in a digit before the point. -/
def addWhole (scaled : Scaled) (digit : Fin 10) : Scaled :=
  match scaled.grown? digit with
  | some significand => { scaled with significand }
  | none => { scaled with exponent := scaled.exponent + 1, fits := false }

/-- Takes in a digit after the point. -/
def addFraction (scaled : Scaled) (digit : Fin 10) : Scaled :=
  match scaled.grown? digit with
  | some significand => { scaled with significand, exponent := scaled.exponent - 1 }
  | none => { scaled with fits := false }

/-- Takes in the digits of a number. -/
def ofDigits (whole fraction : Digits) : Scaled :=
  let before := whole.foldl addWhole {}
  fraction.foldl addFraction { before with fits := true }

end Scaled

/-- The largest exponent that is read as it is written. -/
def maxExponent : Nat := 0x7fffffff

/-- Multiplies or divides by a power of ten, a large divisor in steps. A result
beyond the largest number is refused. -/
def scale : Nat → Float → Int → Option Float
  | 0, x, _ => some x
  | steps + 1, x, exponent =>
    if exponent.natAbs ≤ 308 then
      let power := Float.ofScientific 1 false exponent.natAbs
      if 0 ≤ exponent then
        let product := x * power
        if product.isInf then none else some product
      else some (x / power)
    else if x == 0 then some x
    else if 0 ≤ exponent then none
    else scale steps (x / 1e308) (exponent + 308)

/-- The magnitude of the floating point number that a numeral writes. -/
def magnitude? (numeral : Numeral) : Option Float :=
  let scaled := Scaled.ofDigits numeral.whole numeral.fraction
  let x := scaled.significand.toUInt64.toFloat
  match numeral.exponent with
  | none => scale 4 x scaled.exponent
  | some (negative, digits) =>
    match Digits.upTo? maxExponent digits with
    | none => if scaled.significand ≠ 0 && !negative then none else some 0
    | some written =>
      scale 4 x (if negative then scaled.exponent - written else scaled.exponent + written)

/-- The floating point number that a numeral writes, unless it is too large. -/
def double? (numeral : Numeral) : Option Double := do
  let x := Double.ofFloat (← numeral.magnitude?)
  return if numeral.negative then x.neg else x

/-- The numeral of a finite floating point number: the fewest digits that
identify it, a tie going to the even one. Numbers from `10 ^ -5` up to below
`10 ^ 16` are written without an exponent and with at least one digit after
the point. -/
def ofDouble (x : Double) : Numeral :=
  if x.magnitude = 0 then { negative := x.isNegative, whole := [0], fraction := [0] }
  else
    let decimal := Decimal.shortest .even (Binary.ofDouble x)
    let digits := Digits.ofNat decimal.digits
    let point : Int := digits.length + decimal.exponent
    if -5 < point ∧ point ≤ 16 then
      if 0 < point then
        let whole := digits.take point.toNat ++
          List.replicate (point.toNat - digits.length) 0
        let fraction := digits.drop point.toNat
        { negative := x.isNegative, whole, fraction := if fraction = [] then [0] else fraction }
      else
        { negative := x.isNegative, whole := [0],
          fraction := List.replicate (-point).toNat 0 ++ digits }
    else
      let exponent := point - 1
      { negative := x.isNegative, whole := digits.take 1, fraction := digits.drop 1,
        exponent := some (exponent < 0, Digits.ofNat exponent.natAbs) }

end Numeral

end ByteLisp
