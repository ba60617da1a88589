import ByteLisp.Heap.Action

/-!
# Arithmetic

Integers have 64 bits, and a result that does not fit is a fault. As soon as
one operand is a float the operation is carried out on floats.
-/

namespace ByteLisp

/-- A number, taken out of a value. -/
inductive Number where
  | int (n : Int64)
  | float (x : Double)
deriving DecidableEq, Repr

namespace Number

/-- The number as a double: an integer is rounded. -/
def toDouble : Number → Double
  | int n => Double.ofInt n
  | float x => x

end Number

namespace Value

/-- The value as a number. -/
@[inline] def expectNumber (value : Value) : Except Fault Number :=
  match value with
  | .int n => .ok (.int n)
  | .float x => .ok (.float x)
  | _ => .error (.wrongType .numberOrMarkerp value)

end Value

namespace Arithmetic

/-- The integer as a value, when it fits 64 bits. -/
@[inline] def checked (operation : ArithmeticOp) (result : Int) : Except Fault Value :=
  let word := Int64.ofInt result
  if word.toInt = result then .ok (.int word) else .error (.overflow operation)

/-- Carries out an operation on two integers or on two floats. -/
@[inline] def apply (operation : ArithmeticOp) (onIntegers : Int → Int → Int)
    (onDoubles : Double → Double → Double) (a b : Value) : Except Fault Value := do
  match ← a.expectNumber, ← b.expectNumber with
  | .int x, .int y => checked operation (onIntegers x.toInt y.toInt)
  | x, y => return .float (onDoubles x.toDouble y.toDouble)

/-- The sum of two numbers. -/
def plus : Value → Value → Except Fault Value :=
  apply .add (· + ·) Double.add

/-- The difference of two numbers. -/
def diff : Value → Value → Except Fault Value :=
  apply .sub (· - ·) Double.sub

/-- The product of two numbers. -/
def mult : Value → Value → Except Fault Value :=
  apply .mul (· * ·) Double.mul

/-- Division; between integers it truncates toward zero. -/
def quo (a b : Value) : Except Fault Value := do
  match ← a.expectNumber, ← b.expectNumber with
  | .int x, .int y =>
    if y = 0 then throw .divisionByZero else checked .div (x.toInt.tdiv y.toInt)
  | x, y => return .float (x.toDouble.div y.toDouble)

/-- The integer operand of a remainder. -/
def integerOperand (value : Value) : Except Fault Int64 :=
  match value.int? with
  | some n => .ok n
  | none => .error (.wrongType .integerOrMarkerp value)

/-- The remainder of a truncating division of integers. -/
def rem (a b : Value) : Except Fault Value := do
  let x ← integerOperand a
  let y ← integerOperand b
  if y = 0 then throw .divisionByZero
  return .int (Int64.ofInt (x.toInt.tmod y.toInt))

/-- The number plus one. -/
def add1 (n : Value) : Except Fault Value :=
  plus n (.int 1)

/-- The number less one. -/
def sub1 (n : Value) : Except Fault Value :=
  diff n (.int 1)

/-- The number with the other sign. -/
def negate (n : Value) : Except Fault Value := do
  match ← n.expectNumber with
  | .int x => checked .sub (-x.toInt)
  | .float x => return .float x.neg

/-- The order of two numbers; none when one is not a number. -/
@[inline] def compare? (a b : Value) : Except Fault (Option Ordering) := do
  match ← a.expectNumber, ← b.expectNumber with
  | .int x, .int y => return some (compare x.toInt y.toInt)
  | x, y => return x.toDouble.compare? y.toDouble

/-- Whether the order of two numbers is among those that `accept` takes. -/
@[inline] def holds (accept : Ordering → Bool) (a b : Value) : Except Fault Value := do
  return Value.ofBool (((← compare? a b).map accept).getD false)

/-- The numbers are equal. -/
def numEq : Value → Value → Except Fault Value :=
  holds (· == .eq)

/-- The first number is less than the second. -/
def less : Value → Value → Except Fault Value :=
  holds (· == .lt)

/-- The first number is greater than the second. -/
def greater : Value → Value → Except Fault Value :=
  holds (· == .gt)

/-- The first number is at most the second. -/
def lessEq : Value → Value → Except Fault Value :=
  holds (· != .gt)

/-- The first number is at least the second. -/
def greaterEq : Value → Value → Except Fault Value :=
  holds (· != .lt)

/-- The first number when it stands in the wanted order to the second,
otherwise the second; a float when one of them is a float. -/
def pick (wanted : Ordering) (a b : Value) : Except Fault Value := do
  match ← compare? a b with
  | none => return .float Double.nan
  | some order =>
    let chosen := if order = wanted then a else b
    match a, b with
    | .int _, .int _ => return chosen
    | _, _ => return .float (← chosen.expectNumber).toDouble

/-- The greater of two numbers. -/
def max : Value → Value → Except Fault Value :=
  pick .gt

/-- The smaller of two numbers. -/
def min : Value → Value → Except Fault Value :=
  pick .lt

end Arithmetic

end ByteLisp
