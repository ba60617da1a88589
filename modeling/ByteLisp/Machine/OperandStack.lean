import ByteLisp.Fault

/-!
# Operand stacks

Every activation has an operand stack of its own, which never holds more values
than its function declares. A stack operation that fails leaves the stack as it
was.
-/

namespace ByteLisp

/-- The values of an activation, the top last. -/
structure OperandStack where
  slots : Array Value := #[]
  /-- The number of values that the stack may hold. -/
  maxDepth : Nat
  /-- The greatest number of values that the stack has held. -/
  highWater : Nat := 0
deriving DecidableEq, Repr

/-- An operation on an operand stack. -/
abbrev StackM := ExceptT Fault (StateM OperandStack)

namespace OperandStack

/-- The number of values on the stack. -/
@[inline] def depth (stack : OperandStack) : Nat :=
  stack.slots.size

/-- Puts a value on top. -/
@[inline] def push (value : Value) : StackM Unit :=
  fun ⟨slots, maxDepth, highWater⟩ =>
    if slots.size < maxDepth then
      let size := slots.size + 1
      (.ok (), ⟨slots.push value, maxDepth, max highWater size⟩)
    else
      (.error (.stackDepthExceeded maxDepth), ⟨slots, maxDepth, highWater⟩)

/-- Takes the top value off. -/
@[inline] def pop : StackM Value :=
  fun ⟨slots, maxDepth, highWater⟩ =>
    match slots.back? with
    | some value => (.ok value, ⟨slots.pop, maxDepth, highWater⟩)
    | none => (.error .stackUnderflow, ⟨slots, maxDepth, highWater⟩)

/-- Takes the top `count` values off; the result has the top value last. -/
@[inline] def popMany (count : Nat) : StackM (List Value) :=
  fun ⟨slots, maxDepth, highWater⟩ =>
    if count ≤ slots.size then
      let rest := slots.size - count
      (.ok (slots.extract rest slots.size).toList, ⟨slots.shrink rest, maxDepth, highWater⟩)
    else
      (.error .stackUnderflow, ⟨slots, maxDepth, highWater⟩)

/-- Drops the top `count` values. -/
@[inline] def dropMany (count : Nat) : StackM Unit :=
  fun ⟨slots, maxDepth, highWater⟩ =>
    if count ≤ slots.size then
      let rest := slots.size - count
      (.ok (), ⟨slots.shrink rest, maxDepth, highWater⟩)
    else
      (.error .stackUnderflow, ⟨slots, maxDepth, highWater⟩)

/-- The value `slot` places below the top. -/
@[inline] def peek (slot : Nat) : StackM Value :=
  fun stack =>
    if slot < stack.slots.size then
      (.ok (stack.slots.getD (stack.slots.size - 1 - slot) .nil), stack)
    else
      (.error (.stackSlotOutOfRange slot stack.slots.size), stack)

/-- Replaces the value `slot` places below the top. -/
@[inline] def set (slot : Nat) (value : Value) : StackM Unit :=
  fun ⟨slots, maxDepth, highWater⟩ =>
    if slot < slots.size then
      let place := slots.size - 1 - slot
      (.ok (), ⟨slots.setIfInBounds place value, maxDepth, highWater⟩)
    else
      (.error (.stackSlotOutOfRange slot slots.size), ⟨slots, maxDepth, highWater⟩)

/-- Drops all values. -/
def clear : StackM Unit :=
  fun ⟨_, maxDepth, highWater⟩ => (.ok (), ⟨#[], maxDepth, highWater⟩)

end OperandStack

end ByteLisp
