import ByteLisp.Code.Error

/-!
# Argument descriptors

A function that takes its arguments by position describes them with one
integer: bits 0 to 6 hold the number of required arguments, bit 7 says whether
further arguments are collected in a list, and the bits from 8 on hold the
number of required and optional arguments together.
-/

namespace ByteLisp

/-- How many arguments a function takes: at least `least`, and at most `most`
where there is a limit. -/
structure Arity where
  least : Nat
  most : Option Nat
deriving DecidableEq, Repr

namespace Arity

/-- Whether the number of arguments is accepted. -/
def accepts (arity : Arity) (supplied : Nat) : Bool :=
  arity.least ≤ supplied && match arity.most with
    | some most => supplied ≤ most
    | none => true

/-- The accepted numbers in words. -/
def text (arity : Arity) : String :=
  match arity.most with
  | none => s!"{arity.least} or more"
  | some most => if most = arity.least then s!"{arity.least}" else s!"{arity.least}..{most}"

end Arity

/-- The fields of an argument descriptor. `total` counts the required and the
optional arguments. -/
structure Descriptor where
  required : UInt8
  total : UInt16
  rest : Bool
deriving DecidableEq, Repr

namespace Descriptor

/-- The largest number of required arguments that the layout can hold. -/
def maxRequired : Nat := 127

/-- The fields fit the layout and count the required arguments among all. -/
def Valid (descriptor : Descriptor) : Prop :=
  descriptor.required.toNat ≤ maxRequired ∧ descriptor.required.toNat ≤ descriptor.total.toNat

instance (descriptor : Descriptor) : Decidable descriptor.Valid :=
  inferInstanceAs (Decidable (_ ∧ _))

/-- The integer form of the fields. -/
def encode (descriptor : Descriptor) : Int64 :=
  Int64.ofNat (descriptor.required.toNat % 128 + (if descriptor.rest then 128 else 0) +
    256 * descriptor.total.toNat)

/-- The descriptor with the given fields, when they are valid. -/
def ofFields (required : UInt8) (total : UInt16) (rest : Bool) : Except CodeError Descriptor :=
  let descriptor : Descriptor := ⟨required, total, rest⟩
  if descriptor.Valid then .ok descriptor else .error (.invalidDescriptor descriptor.encode)

/-- The descriptor with required arguments only. -/
def fixed (required : UInt8) : Except CodeError Descriptor :=
  ofFields required required.toUInt16 false

/-- The descriptor with the given integer form. -/
def decode (raw : Int64) : Except CodeError Descriptor :=
  let bits := raw.toInt.toNat
  let descriptor : Descriptor :=
    ⟨UInt8.ofNat (bits % 128), UInt16.ofNat (bits / 256), decide (bits / 128 % 2 = 1)⟩
  if 0 ≤ raw.toInt ∧ bits / 256 < 65536 ∧ descriptor.Valid then
    .ok descriptor
  else
    .error (.invalidDescriptor raw)

/-- The number of optional arguments. There is none when more arguments are required than
there are in all: the subtraction would go below zero. -/
def optional? (descriptor : Descriptor) : Option Nat :=
  if descriptor.required.toNat ≤ descriptor.total.toNat then
    some (descriptor.total.toNat - descriptor.required.toNat)
  else none

/-- The accepted numbers of arguments; without a limit when further arguments
are collected. -/
def arity (descriptor : Descriptor) : Arity :=
  ⟨descriptor.required.toNat, if descriptor.rest then none else some descriptor.total.toNat⟩

/-- The number of stack slots that the arguments take up. -/
def frameSlots (descriptor : Descriptor) : Nat :=
  descriptor.total.toNat + if descriptor.rest then 1 else 0

end Descriptor

end ByteLisp
