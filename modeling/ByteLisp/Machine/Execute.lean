import ByteLisp.Machine.Context
import ByteLisp.Primitive.Call

/-!
# Executing one instruction

An instruction works on the operand stack of its activation and on the context.
Its outcome says how the activation goes on.
-/

namespace ByteLisp

/-- The context together with the operand stack of the running activation. -/
structure Running where
  context : Context
  stack : OperandStack

/-- A step of execution. -/
abbrev ExecM := ExceptT Fault (StateM Running)

namespace ExecM

variable {α : Type}

/-- An operation on the operand stack. -/
@[inline] def onStack (operation : StackM α) : ExecM α :=
  fun ⟨context, stack⟩ =>
    let (result, stack) := operation stack
    (result, ⟨context, stack⟩)

/-- An operation on the memory. -/
@[inline] def perform (action : Action α) : ExecM α :=
  fun ⟨context, stack⟩ =>
    let (result, context) := context.perform action
    (result, ⟨context, stack⟩)

/-- Updates the statistics, when they are collected. -/
@[inline] def count (update : Statistics → Statistics) : ExecM Unit :=
  fun ⟨context, stack⟩ => (.ok (), ⟨context.count update, stack⟩)

/-- Pushes a value onto the operand stack. -/
@[inline] def push (value : Value) : ExecM Unit :=
  onStack (OperandStack.push value)

/-- Pops a value off the operand stack. -/
@[inline] def pop : ExecM Value :=
  onStack OperandStack.pop

end ExecM

/-- How an activation goes on after an instruction. -/
inductive Flow where
  /-- With the following instruction. -/
  | next
  /-- At an offset of its code. -/
  | jump (target : Nat)
  /-- With the result of a call. -/
  | call (callee : Value) (arguments : List Value)
  /-- Not at all: it returns a value. -/
  | leave (value : Value)
deriving DecidableEq, Repr

namespace Execute

open ExecM

/-- The constant at an index. -/
@[inline] def constant (constants : Array Value) (index : Nat) : Except Fault Value :=
  match constants[index]? with
  | some value => .ok value
  | none => .error (.constantOutOfRange index constants.size)

/-- The symbol that is the constant at an index. -/
@[inline] def constantSymbol (constants : Array Value) (index : Nat) : Except Fault Symbol := do
  (← constant constants index).expectSymbol

/-- Replaces the top value by the result of an operation on it. -/
@[inline] def unary (operation : Value → Action Value) : ExecM Flow := do
  let x ← pop
  push (← perform (operation x))
  return .next

/-- Replaces the top two values by the result of an operation on them. -/
@[inline] def binary (operation : Value → Value → Action Value) : ExecM Flow := do
  let b ← pop
  let a ← pop
  push (← perform (operation a b))
  return .next

/-- Replaces the top three values by the result of an operation on them. -/
@[inline] def ternary (operation : Value → Value → Value → Action Value) : ExecM Flow := do
  let c ← pop
  let b ← pop
  let a ← pop
  push (← perform (operation a b c))
  return .next

/-- Replaces the top `count` values by the result of an operation on them. -/
@[inline] def variadic (count : Nat) (operation : List Value → Action Value) : ExecM Flow := do
  let items ← onStack (OperandStack.popMany count)
  push (← perform (operation items))
  return .next

/-- A test of one value. -/
@[inline] def test (predicate : Value → Bool) : ExecM Flow :=
  unary fun x => return Value.ofBool (predicate x)

/-- An arithmetic operation on one number. -/
@[inline] def arithmetic1 (operation : Value → Except Fault Value) : ExecM Flow :=
  unary fun x => Action.ofExcept (operation x)

/-- An arithmetic operation on two numbers. -/
@[inline] def arithmetic2 (operation : Value → Value → Except Fault Value) : ExecM Flow :=
  binary fun a b => Action.ofExcept (operation a b)

/-- An operation that only looks at the heap and one value. -/
@[inline] def look1 (operation : Heap → Value → Except Fault Value) : ExecM Flow :=
  unary fun x => Action.look (operation · x)

/-- An operation that only looks at the heap and two values. -/
@[inline] def look2 (operation : Heap → Value → Value → Except Fault Value) : ExecM Flow :=
  binary fun a b => Action.look (operation · a b)

/-- Makes a list of the top `count` values. -/
@[inline] def list (count : Nat) : ExecM Flow :=
  variadic count fun items => Action.onHeap (HeapM.make (·.list items))

/-- Concatenates the top `count` values. -/
@[inline] def concat (count : Nat) : ExecM Flow :=
  variadic count fun parts => Action.onHeap (Sequences.concat parts)

/-- Pops and jumps when the value is as wanted. -/
@[inline] def jumpIf (wanted : Value → Bool) (target : Nat) : ExecM Flow := do
  if wanted (← pop) then return .jump target else return .next

/-- Jumps and keeps the top when it is as wanted, otherwise pops. -/
@[inline] def jumpElsePop (wanted : Value → Bool) (target : Nat) : ExecM Flow := do
  if wanted (← onStack (OperandStack.peek 0)) then
    return .jump target
  else
    let _ ← pop
    return .next

/-- Copies the value `slot` places below the top to the top. -/
@[inline] def copy (slot : Nat) : ExecM Flow := do
  push (← onStack (OperandStack.peek slot))
  return .next

/-- Drops values. With the high bit of the operand set, the top value takes the
place of the lowest one that is dropped. -/
@[inline] def discard (operand : Nat) : ExecM Flow := do
  let count := operand % 128
  if 128 ≤ operand && count ≠ 0 then
    let top ← onStack (OperandStack.peek 0)
    onStack (OperandStack.set count top)
  onStack (OperandStack.dropMany count)
  return .next

/-- Pops into the slot that was `slot` places below the top. -/
@[inline] def store (slot : Nat) : ExecM Flow := do
  let value ← pop
  if slot ≠ 0 then onStack (OperandStack.set (slot - 1) value)
  return .next

/-- Pops and binds a symbol. -/
@[inline] def bind (symbol : Symbol) : ExecM Flow := do
  let value ← pop
  perform (Action.onEnv (Environment.bind symbol value))
  count (·.recordBound 1)
  return .next

/-- Undoes bindings that the activation has made since there were `base`. -/
@[inline] def unbind (base requested : Nat) : ExecM Flow := do
  perform do
    let available ← Action.ask fun env => .ok (env.bindingDepth - base)
    if available < requested then throw (.unbindUnderflow requested available)
    Action.onEnv (Environment.unbind requested)
  count (·.recordRestored requested)
  return .next

/-- Executes an operation of a function with the given constants, whose activation
started with `base` bindings in force. -/
def operation (constants : Array Value) (base : Nat) (opcode : Opcode) (operand : UInt16) :
    ExecM Flow := do
  let operand := operand.toNat
  match opcode with
  | .stackRef => copy operand
  | .varRef =>
    let symbol ← perform (Action.ofExcept (constantSymbol constants operand))
    push (← perform (Action.ask (·.symbolValue symbol)))
    return .next
  | .varSet =>
    let symbol ← perform (Action.ofExcept (constantSymbol constants operand))
    let value ← pop
    perform (Action.onEnv (Environment.setBound symbol value))
    return .next
  | .varBind =>
    let symbol ← perform (Action.ofExcept (constantSymbol constants operand))
    bind symbol
  | .call =>
    let arguments ← onStack (OperandStack.popMany operand)
    let callee ← pop
    return .call callee arguments
  | .unbind => unbind base operand
  | .constant | .constant2 =>
    push (← perform (Action.ofExcept (constant constants operand)))
    return .next
  | .goto => return .jump operand
  | .gotoIfNil => jumpIf Value.isNil operand
  | .gotoIfNotNil => jumpIf (!·.isNil) operand
  | .gotoIfNilElsePop => jumpElsePop Value.isNil operand
  | .gotoIfNotNilElsePop => jumpElsePop (!·.isNil) operand
  | .ret => return .leave (← pop)
  | .discard =>
    let _ ← pop
    return .next
  | .dup => copy 0
  | .discardN => discard operand
  | .stackSet | .stackSet2 => store operand
  | .car => look1 Heap.car
  | .cdr => look1 Heap.cdr
  | .carSafe => look1 fun heap x => .ok (Lists.carSafe heap x)
  | .cdrSafe => look1 fun heap x => .ok (Lists.cdrSafe heap x)
  | .cons => binary fun a b => Action.onHeap (HeapM.make (·.cons a b))
  | .list1 => list 1
  | .list2 => list 2
  | .list3 => list 3
  | .list4 => list 4
  | .listN => list operand
  | .length => look1 Sequences.length
  | .nth => look2 Lists.nth
  | .nthcdr => look2 Lists.nthcdr
  | .elt => look2 Sequences.elt
  | .memq => look2 Lists.memq
  | .member => look2 Lists.member
  | .assq => look2 Lists.assq
  | .nreverse => unary fun x => Action.onHeap (Lists.nreverse x)
  | .nconc => binary fun a b => Action.onHeap (Lists.nconc a b)
  | .setcar => binary fun a x => Action.onHeap (Lists.setcar a x)
  | .setcdr => binary fun a x => Action.onHeap (Lists.setcdr a x)
  | .symbolp => test Value.isSymbol
  | .consp => test Value.isCons
  | .stringp => test Primitive.isString
  | .listp => test Value.isList
  | .numberp => test Value.isNumber
  | .integerp => test (·.int?.isSome)
  | .not => test Value.isNil
  | .eq => binary fun a b => return Value.ofBool (a.isEq b)
  | .equal => look2 fun heap a b => .ok (Value.ofBool (heap.equal a b))
  | .add1 => arithmetic1 Arithmetic.add1
  | .sub1 => arithmetic1 Arithmetic.sub1
  | .negate => arithmetic1 Arithmetic.negate
  | .plus => arithmetic2 Arithmetic.plus
  | .diff => arithmetic2 Arithmetic.diff
  | .mult => arithmetic2 Arithmetic.mult
  | .quo => arithmetic2 Arithmetic.quo
  | .rem => arithmetic2 Arithmetic.rem
  | .max => arithmetic2 Arithmetic.max
  | .min => arithmetic2 Arithmetic.min
  | .numEq => arithmetic2 Arithmetic.numEq
  | .greater => arithmetic2 Arithmetic.greater
  | .less => arithmetic2 Arithmetic.less
  | .lessEq => arithmetic2 Arithmetic.lessEq
  | .greaterEq => arithmetic2 Arithmetic.greaterEq
  | .aref => look2 Sequences.aref
  | .aset => ternary fun a n x => Action.onHeap (Sequences.aset a n x)
  | .substring => ternary fun x start stop => Action.onHeap (Sequences.substring x start stop)
  | .concat2 => concat 2
  | .concat3 => concat 3
  | .concat4 => concat 4
  | .concatN => concat operand
  | .upcase => unary fun x => Action.onHeap (Sequences.upcase x)
  | .downcase => unary fun x => Action.onHeap (Sequences.downcase x)
  | .stringEq => look2 Sequences.stringEq
  | .stringLess => look2 Sequences.stringLess
  | .symbolValue => unary Cells.symbolValue
  | .symbolFunction => unary Cells.symbolFunction
  | .set => binary Cells.set
  | .fset => binary Cells.fset
  | .get => binary Cells.get

/-- Executes an instruction. -/
@[inline] def instruction (constants : Array Value) (base : Nat) (instruction : Instruction) :
    ExecM Flow :=
  operation constants base instruction.opcode instruction.operand

end Execute

end ByteLisp
