/-!
# Double precision numbers

A floating point number is held as its 64-bit pattern, so that two numbers are
the same exactly when their patterns are: `0.0` and `-0.0` differ, and a
not-a-number equals itself. Arithmetic is IEEE 754 double precision.
-/

namespace ByteLisp

/-- A double precision number, given by its bit pattern. -/
structure Double where
  bits : UInt64
deriving DecidableEq, Repr, Inhabited

namespace Double

/-- The number that the pattern stands for. -/
def toFloat (x : Double) : Float :=
  Float.ofBits x.bits

/-- The pattern of a number that is not a not-a-number. -/
def ofFloat (x : Float) : Double :=
  ⟨x.toBits⟩

/-- The nearest double precision number to an integer. -/
def ofInt (n : Int64) : Double :=
  ofFloat n.toFloat

/-- The not-a-number that comparisons choose. -/
def nan : Double := ⟨0x7ff8000000000000⟩

/-- The not-a-number that an invalid operation on numbers gives. -/
def invalid : Double := ⟨0xfff8000000000000⟩

/-- The bits apart from the sign. -/
def magnitude (x : Double) : UInt64 :=
  x.bits % 0x8000000000000000

/-- Whether the sign bit is set. -/
def isNegative (x : Double) : Bool :=
  0x8000000000000000 ≤ x.bits

/-- The magnitude of the infinities; greater magnitudes are no numbers. -/
def infinity : UInt64 := 0x7ff0000000000000

/-- The double is not a number. -/
def isNaN (x : Double) : Bool :=
  infinity < x.magnitude

/-- The double is one of the two infinities. -/
def isInfinite (x : Double) : Bool :=
  x.magnitude = infinity

/-- Applies an operation to two numbers. An operand that is not a number is
passed on, the left one first. -/
def apply (operation : Float → Float → Float) (x y : Double) : Double :=
  if x.isNaN then x
  else if y.isNaN then y
  else
    let result := operation x.toFloat y.toFloat
    if result.isNaN then invalid else ofFloat result

/-- The sum, rounded. -/
def add : Double → Double → Double := apply (· + ·)

/-- The difference, rounded. -/
def sub : Double → Double → Double := apply (· - ·)

/-- The product, rounded. -/
def mul : Double → Double → Double := apply (· * ·)

/-- The quotient, rounded. -/
def div : Double → Double → Double := apply (· / ·)

/-- Flips the sign. -/
def neg (x : Double) : Double :=
  ⟨x.bits ^^^ 0x8000000000000000⟩

/-- The order of two numbers; there is none when one is not a number. The two
zeros are the same in this order. -/
def compare? (x y : Double) : Option Ordering :=
  if x.isNaN || y.isNaN then none
  else if x.toFloat < y.toFloat then some .lt
  else if y.toFloat < x.toFloat then some .gt
  else some .eq

end Double

end ByteLisp
