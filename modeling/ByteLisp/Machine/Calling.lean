import ByteLisp.Machine.OperandStack
import ByteLisp.Memory

/-!
# Passing arguments

Both conventions check the number of arguments before anything else happens.
-/

namespace ByteLisp

namespace Calling

/-- The fault of a call with a number of arguments that is not accepted. -/
def mismatch (callee : Value) (arity : Arity) (arguments : List Value) : Fault :=
  .arityMismatch callee arity arguments.length

/-- Binds names to arguments in turn; names without an argument are bound to
`nil`. The result holds the arguments that are left over. -/
def bindNames : List Symbol → List Value → Action (List Value)
  | [], arguments => return arguments
  | name :: names, arguments => do
    Action.onEnv (Environment.bind name (arguments.headD .nil))
    bindNames names arguments.tail

/-- Binds the parameters to the arguments; the last name receives a list of the
arguments beyond the others. The result is the number of bindings. -/
def bindDynamic (callee : Value) (list : ParameterList) (arguments : List Value) :
    Action Nat := do
  if !list.arity.accepts arguments.length then
    throw (mismatch callee list.arity arguments)
  let further ← bindNames (list.required ++ list.optional) arguments
  match list.rest with
  | some name =>
    let rest ← Action.onHeap (HeapM.make (·.list further))
    Action.onEnv (Environment.bind name rest)
  | none => pure ()
  return list.bindingCount

/-- Pushes values in turn. -/
def pushAll (values : List Value) : StackM Unit :=
  values.forM OperandStack.push

/-- The values that take up the slots of the arguments: the arguments, `nil` for
each missing optional one, and a list of the arguments beyond the others. -/
def slots (descriptor : Descriptor) (arguments : List Value) : HeapM (List Value) := do
  let total := descriptor.total.toNat
  let plain := arguments.take total ++ List.replicate (total - arguments.length) .nil
  if descriptor.rest then
    let rest ← HeapM.make (·.list (arguments.drop total))
    return plain ++ [rest]
  else
    return plain

/-- Lays the arguments out on a new operand stack. -/
def pushLexical (callee : Value) (descriptor : Descriptor) (arguments : List Value)
    (maxDepth : Nat) : HeapM OperandStack := do
  if !descriptor.arity.accepts arguments.length then
    throw (mismatch callee descriptor.arity arguments)
  let values ← slots descriptor arguments
  match pushAll values { maxDepth } with
  | (.ok (), stack) => return stack
  | (.error fault, _) => throw fault

/-- Prepares an activation of a function. The result is its operand stack and
the number of bindings that were made. -/
def prepare (callee : Value) (function : Function) (arguments : List Value) :
    Action (OperandStack × Nat) := do
  match function.parameters with
  | .dynamic list =>
    let bound ← bindDynamic callee list arguments
    return ({ maxDepth := function.maxDepth }, bound)
  | .lexical descriptor =>
    let stack ← Action.onHeap (pushLexical callee descriptor arguments function.maxDepth)
    return (stack, 0)

end Calling

end ByteLisp
