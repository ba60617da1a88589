import ByteLisp.Machine.Calling
import ByteLisp.Machine.Execute

/-!
# Running functions

A machine runs the innermost activation and keeps the activations that wait
for its result in a list. A call of a compiled function adds an activation and
a return removes one, so the depth of nesting is limited by the settings alone.

A run may go on forever. `Machine.run` therefore takes the number of steps that
it may take, and gives no answer when they are used up.
-/

namespace ByteLisp

/-- A live activation of a compiled function. -/
structure Activation where
  function : Function
  stack : OperandStack
  /-- The offset of the next instruction. -/
  pc : Nat := 0
  /-- The offset of the instruction that was started last. -/
  current : Nat := 0
  /-- The number of bindings in force when the activation started. -/
  base : Nat

/-- A value or a failure. -/
abbrev Result := Except Failure Value

namespace Activation

/-- Executes the next instruction. A failure names the instruction at fault. -/
@[inline] def step (context : Context) (activation : Activation) :
    Except Failure Flow × Context × Activation :=
  match activation with
  | ⟨function, stack, pc, current, base⟩ =>
    if function.code.size ≤ pc then
      (.error ⟨.missingReturn, [⟨pc, .atEnd⟩]⟩, context, ⟨function, stack, pc, current, base⟩)
    else
      match Instruction.decode function.code pc with
      | .error error =>
        (.error ⟨.code error, [⟨pc, .decoding⟩]⟩, context, ⟨function, stack, pc, current, base⟩)
      | .ok (instruction, next) =>
        let context := context.recordInstruction pc instruction stack.depth
        match Execute.instruction function.constants base instruction ⟨context, stack⟩ with
        | (.error fault, ⟨context, stack⟩) =>
          (.error ⟨fault, [⟨pc, .executing instruction.opcode⟩]⟩, context,
            ⟨function, stack, next, pc, base⟩)
        | (.ok (.jump target), ⟨context, stack⟩) =>
          if target < function.code.size then
            (.ok (.jump target), context, ⟨function, stack, target, pc, base⟩)
          else
            (.error ⟨.invalidJump target function.code.size,
                [⟨pc, .executing instruction.opcode⟩]⟩, context,
              ⟨function, stack, next, pc, base⟩)
        | (.ok flow, ⟨context, stack⟩) => (.ok flow, context, ⟨function, stack, next, pc, base⟩)

/-- The place at which the activation waits for the result of a call. -/
def callSite (activation : Activation) : Site :=
  ⟨activation.current, .executing .call⟩

/-- Hands the result of a call to the activation that made it. -/
def receive (activation : Activation) (result : Result) : Except Failure Activation :=
  match activation with
  | ⟨function, stack, pc, current, base⟩ =>
    match result with
    | .error failure => .error (failure.within ⟨current, .executing .call⟩)
    | .ok value =>
      match OperandStack.push value stack with
      | (.ok (), stack) => .ok ⟨function, stack, pc, current, base⟩
      | (.error fault, _) => .error ⟨fault, [⟨current, .executing .call⟩]⟩

end Activation

namespace Context

/-- Ends an activation with a result. -/
def finish (context : Context) (activation : Activation) (result : Result) : Context :=
  context.exit activation.base activation.stack.highWater
    (match result with
      | .ok _ => false
      | .error _ => true)

/-- Passes the arguments to a new activation of a function that starts with `base`
bindings in force. When that fails, the activation is ended again. -/
@[noinline] def begin (context : Context) (base : Nat) (callee : Value) (function : Function)
    (arguments : List Value) : Except Fault Activation × Context :=
  match context.perform (Calling.prepare callee function arguments) with
  | (.ok (stack, bound), context) =>
    let depth := context.callDepth
    let context :=
      context.count (·.recordActivation function.parameters.convention bound depth)
    (.ok { function, stack, base }, context)
  | (.error fault, context) => (.error fault, context.exit base 0 true)

/-- Starts an activation of a function, within the limit of nesting. -/
def activate (context : Context) (callee : Value) (function : Function)
    (arguments : List Value) : Except Fault Activation × Context :=
  match context.enter with
  | (.error fault, context) => (.error fault, context)
  | (.ok (), context) =>
    context.begin context.memory.env.bindingDepth callee function arguments

end Context

/-- What a call comes to. -/
inductive Dispatch where
  /-- The value of a built-in function. -/
  | value (value : Value)
  /-- An activation of a compiled function. -/
  | activation (activation : Activation)

namespace Context

/-- Calls a value: a built-in function runs at once, a compiled function is
made ready to run. -/
def dispatch (context : Context) (callee : Value) (arguments : List Value) :
    Except Fault Dispatch × Context :=
  let context := context.count Statistics.recordCall
  match context.memory.env.indirectFunction callee with
  | .error fault => (.error fault, context)
  | .ok (.function address) =>
    let function := context.memory.heap.function address
    match context.activate callee function arguments with
    | (.ok activation, context) => (.ok (.activation activation), context)
    | (.error fault, context) => (.error fault, context)
  | .ok (.primitive primitive) =>
    let context := context.count Statistics.recordPrimitive
    match context.perform (primitive.call arguments) with
    | (.ok value, context) => (.ok (.value value), context)
    | (.error fault, context) => (.error fault, context)
  | .ok other => (.error (.invalidFunction other), context)

end Context

/-- A running machine: the innermost activation, and those that wait for it,
innermost first. -/
structure Machine where
  context : Context
  activation : Activation
  callers : List Activation := []

/-- The state after a step. -/
inductive Machine.State where
  | running (machine : Machine)
  | done (context : Context) (result : Result)

namespace Machine

/-- Hands a result to the innermost waiting activation. A failure ends that
activation too, and is handed on. -/
def resume (context : Context) : List Activation → Result → State
  | [], result => .done context result
  | caller :: callers, result =>
    let base := caller.base
    let highWater := caller.stack.highWater
    match caller.receive result with
    | .ok caller => .running ⟨context, caller, callers⟩
    | .error failure => resume (context.exit base highWater true) callers (.error failure)

/-- Executes one instruction of the innermost activation, and ends the
activations that end with it. -/
@[inline] def step (machine : Machine) : State :=
  match machine with
  | ⟨context, activation, callers⟩ =>
    match activation.step context with
    | (.ok .next, context, activation) | (.ok (.jump _), context, activation) =>
      .running ⟨context, activation, callers⟩
    | (.ok (.call callee arguments), context, activation) =>
      match context.dispatch callee arguments with
      | (.ok (.activation inner), context) => .running ⟨context, inner, activation :: callers⟩
      | (.ok (.value value), context) => resume context (activation :: callers) (.ok value)
      | (.error fault, context) => resume context (activation :: callers) (.error ⟨fault, []⟩)
    | (.ok (.leave value), context, activation) =>
      resume (context.finish activation (.ok value)) callers (.ok value)
    | (.error failure, context, activation) =>
      resume (context.finish activation (.error failure)) callers (.error failure)

/-- Runs a machine until it is done, for at most `fuel` steps. -/
def run : Nat → Machine → Option (Result × Context)
  | 0, _ => none
  | fuel + 1, machine =>
    match machine.step with
    | .running machine => run fuel machine
    | .done context result => some (result, context)

end Machine

namespace Context

/-- Calls a value with arguments, for at most `fuel` steps. -/
def call (fuel : Nat) (context : Context) (callee : Value) (arguments : List Value) :
    Option (Result × Context) :=
  match context.dispatch callee arguments with
  | (.ok (.value value), context) => some (.ok value, context)
  | (.ok (.activation activation), context) => Machine.run fuel { context, activation }
  | (.error fault, context) => some (.error ⟨fault, []⟩, context)

/-- Calls the compiled function at an address, for at most `fuel` steps. -/
def invoke (fuel : Nat) (context : Context) (address : Address) (arguments : List Value) :
    Option (Result × Context) :=
  let context := context.count Statistics.recordCall
  let function := context.memory.heap.function address
  match context.activate (.function address) function arguments with
  | (.ok activation, context) => Machine.run fuel { context, activation }
  | (.error fault, context) => some (.error ⟨fault, []⟩, context)

end Context

end ByteLisp
