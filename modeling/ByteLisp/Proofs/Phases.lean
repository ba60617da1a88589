import ByteLisp.Machine.Run
import Mathlib.Logic.Relation

/-!
# The phases of a run

One step of a machine executes an instruction and then ends as many activations as
end with it. `Phase.Next` takes these apart: a machine either executes an instruction
of its innermost activation, or hands a result to the innermost activation that waits
for one. A run is a sequence of such transitions, and `exists_run_iff_reaches` says
that `Machine.run` follows exactly these.
-/

namespace ByteLisp

/-- Where an activation goes on whose instruction ends at `next`. -/
def Flow.place (next : Nat) : Flow → Nat
  | .jump target => target
  | _ => next

/-- What one step of an activation comes to. -/
inductive Activation.Stepped (activation : Activation) (context : Context) :
    Except Failure Flow → Context → Activation → Prop where
  /-- The code has ended. -/
  | ended (past : activation.function.code.size ≤ activation.pc) :
      Stepped activation context (.error ⟨.missingReturn, [⟨activation.pc, .atEnd⟩]⟩) context
        activation
  /-- There is no instruction at this place. -/
  | undecodable {error : CodeError} (inside : activation.pc < activation.function.code.size)
      (undecoded : Instruction.decode activation.function.code activation.pc = .error error) :
      Stepped activation context (.error ⟨.code error, [⟨activation.pc, .decoding⟩]⟩) context
        activation
  /-- The instruction fails. -/
  | failed {instruction : Instruction} {next : Nat} {fault : Fault} {after : Running}
      (decoded : Instruction.decode activation.function.code activation.pc =
        .ok (instruction, next))
      (executed : Execute.instruction activation.function.constants activation.base instruction
        ⟨context.recordInstruction activation.pc instruction activation.stack.depth,
          activation.stack⟩ = (.error fault, after)) :
      Stepped activation context
        (.error ⟨fault, [⟨activation.pc, .executing instruction.opcode⟩]⟩) after.context
        { activation with stack := after.stack, pc := next, current := activation.pc }
  /-- The instruction jumps to where there is no code. -/
  | astray {instruction : Instruction} {next target : Nat} {after : Running}
      (decoded : Instruction.decode activation.function.code activation.pc =
        .ok (instruction, next))
      (executed : Execute.instruction activation.function.constants activation.base instruction
        ⟨context.recordInstruction activation.pc instruction activation.stack.depth,
          activation.stack⟩ = (.ok (.jump target), after))
      (outside : activation.function.code.size ≤ target) :
      Stepped activation context
        (.error ⟨.invalidJump target activation.function.code.size,
          [⟨activation.pc, .executing instruction.opcode⟩]⟩) after.context
        { activation with stack := after.stack, pc := next, current := activation.pc }
  /-- The instruction succeeds. -/
  | executed {instruction : Instruction} {next : Nat} {flow : Flow} {after : Running}
      (decoded : Instruction.decode activation.function.code activation.pc =
        .ok (instruction, next))
      (executed : Execute.instruction activation.function.constants activation.base instruction
        ⟨context.recordInstruction activation.pc instruction activation.stack.depth,
          activation.stack⟩ = (.ok flow, after))
      (inside : ∀ target, flow = .jump target → target < activation.function.code.size) :
      Stepped activation context (.ok flow) after.context
        { activation with
          stack := after.stack
          pc := flow.place next
          current := activation.pc }

/-- Whatever a step does is one of these. -/
theorem Activation.stepped {activation moved : Activation} {context after : Context}
    {result : Except Failure Flow} (ran : activation.step context = (result, after, moved)) :
    Stepped activation context result after moved := by
  obtain ⟨function, stack, pc, current, base⟩ := activation
  simp only [step] at ran
  split at ran
  · rename_i past
    cases ran
    exact .ended past
  rename_i inside
  split at ran
  · rename_i error undecoded
    cases ran
    exact .undecodable (Nat.lt_of_not_le inside) undecoded
  rename_i instruction next decoded
  rcases executed : Execute.instruction function.constants base instruction
    ⟨context.recordInstruction pc instruction stack.depth, stack⟩ with ⟨fault | flow, left⟩
  · simp only [executed] at ran
    cases ran
    exact .failed decoded executed
  · cases flow with
    | jump target =>
        simp only [executed] at ran
        split at ran
        · rename_i inside
          cases ran
          exact .executed decoded executed fun _ same => Flow.jump.inj same ▸ inside
        · rename_i outside
          cases ran
          exact .astray decoded executed (Nat.le_of_not_lt outside)
    | next | call callee arguments | leave value =>
        simp only [executed] at ran
        cases ran
        exact .executed decoded executed (by simp)

/-- A step changes nothing, or what the execution of one instruction changes. -/
theorem Activation.step_effect {activation moved : Activation} {context after : Context}
    {result : Except Failure Flow} (ran : activation.step context = (result, after, moved)) :
    (after = context ∧ moved = activation) ∨
      ∃ instruction next outcome place, ∃ left : Running,
        Instruction.decode activation.function.code activation.pc = .ok (instruction, next) ∧
        Execute.instruction activation.function.constants activation.base instruction
          ⟨context.recordInstruction activation.pc instruction activation.stack.depth,
            activation.stack⟩ = (outcome, left) ∧
        after = left.context ∧
        moved = { activation with stack := left.stack, pc := place, current := activation.pc } := by
  cases stepped ran with
  | ended | undecodable => exact .inl ⟨rfl, rfl⟩
  | failed decoded executed | astray decoded executed | executed decoded executed =>
      exact .inr ⟨_, _, _, _, _, decoded, executed, rfl, rfl⟩

/-- An activation takes a value for which its operand stack has room. -/
theorem Activation.receive_eq_ok {activation resumed : Activation} {result : Result}
    (received : activation.receive result = .ok resumed) :
    ∃ value, result = .ok value ∧ activation.stack.depth < activation.stack.maxDepth ∧
      resumed = { activation with
        stack := ⟨activation.stack.slots.push value, activation.stack.maxDepth,
          max activation.stack.highWater (activation.stack.depth + 1)⟩ } := by
  obtain ⟨function, ⟨slots, maxDepth, highWater⟩, pc, current, base⟩ := activation
  cases result with
  | error failure => cases received
  | ok value =>
      by_cases room : slots.size < maxDepth
      · simp only [receive, OperandStack.push, room, if_true] at received
        cases received
        exact ⟨value, rfl, room, rfl⟩
      · simp only [receive, OperandStack.push, room, if_false] at received
        cases received

/-- An activation fails with the failure of its callee, or for want of room. -/
theorem Activation.receive_eq_error {activation : Activation} {result : Result}
    {failure : Failure} (received : activation.receive result = .error failure) :
    (∃ given : Failure, result = .error given ∧ failure.cause = given.cause) ∨
      ∃ value, result = .ok value ∧ ¬ activation.stack.depth < activation.stack.maxDepth := by
  obtain ⟨function, ⟨slots, maxDepth, highWater⟩, pc, current, base⟩ := activation
  cases result with
  | error given =>
      cases received
      exact .inl ⟨given, rfl, rfl⟩
  | ok value =>
      refine .inr ⟨value, rfl, fun room => ?_⟩
      simp only [OperandStack.depth] at room
      simp only [receive, OperandStack.push, room, if_true] at received
      cases received

/-- A callee that cannot be resolved is void or is no function. -/
theorem Environment.cause_of_indirectFunction_eq_error {env : Environment} {callee : Value}
    {fault : Fault} (failed : env.indirectFunction callee = .error fault) :
    (∃ symbol, fault = .voidFunction symbol) ∨ ∃ value, fault = .invalidFunction value := by
  have resolving : ∀ steps current, env.resolve callee steps current = .error fault →
      (∃ symbol, fault = .voidFunction symbol) ∨ ∃ value, fault = .invalidFunction value := by
    intro steps
    induction steps with
    | zero =>
        intro current failed
        cases failed
        exact .inr ⟨callee, rfl⟩
    | succ steps ih =>
        intro current failed
        unfold resolve at failed
        split at failed
        · cases failed
        · split at failed
          · exact ih _ failed
          · cases failed
            exact .inl ⟨_, rfl⟩
  exact resolving maxIndirection callee failed

namespace Context

/-- What an attempt to start an activation comes to. -/
inductive Activated (context : Context) (callee : Value) (function : Function)
    (arguments : List Value) : Except Fault Activation → Context → Prop where
  /-- There are too many live activations. -/
  | tooDeep (full : ¬ context.callDepth < context.settings.maxCallDepth) :
      Activated context callee function arguments
        (.error (.excessiveNesting context.settings.maxCallDepth)) context
  /-- The arguments do not fit. -/
  | unfit {fault : Fault} {memory : Memory}
      (room : context.callDepth < context.settings.maxCallDepth)
      (prepared : Calling.prepare callee function arguments context.memory =
        (.error fault, memory)) :
      Activated context callee function arguments (.error fault)
        (exit { context with memory, callDepth := context.callDepth + 1 }
          context.memory.env.bindingDepth 0 true)
  /-- The activation is ready to run. -/
  | ready {stack : OperandStack} {bound : Nat} {memory : Memory}
      (room : context.callDepth < context.settings.maxCallDepth)
      (prepared : Calling.prepare callee function arguments context.memory =
        (.ok (stack, bound), memory)) :
      Activated context callee function arguments
        (.ok { function, stack, base := context.memory.env.bindingDepth })
        (count { context with memory, callDepth := context.callDepth + 1 }
          (·.recordActivation function.parameters.convention bound (context.callDepth + 1)))

/-- Whatever starting an activation does is one of these. -/
theorem activated {context after : Context} {callee : Value} {function : Function}
    {arguments : List Value} {result : Except Fault Activation}
    (ran : context.activate callee function arguments = (result, after)) :
    Activated context callee function arguments result after := by
  obtain ⟨memory, settings, statistics, trace, callDepth, traced⟩ := context
  by_cases room : callDepth < settings.maxCallDepth
  · simp only [activate, enter, room, if_true, begin, perform] at ran
    rcases prepared : Calling.prepare callee function arguments memory with
      ⟨fault | ⟨stack, bound⟩, left⟩
    · simp only [prepared] at ran
      cases ran
      exact .unfit room prepared
    · simp only [prepared] at ran
      cases ran
      exact .ready room prepared
  · simp only [activate, enter, room, if_false] at ran
    cases ran
    exact .tooDeep room

/-- What a call comes to. -/
inductive Dispatched (context : Context) (callee : Value) (arguments : List Value) :
    Except Fault Dispatch → Context → Prop where
  /-- There is no function to call. -/
  | unknown {fault : Fault}
      (cause : (∃ symbol, fault = .voidFunction symbol) ∨ ∃ value, fault = .invalidFunction value) :
      Dispatched context callee arguments (.error fault) (context.count Statistics.recordCall)
  /-- A compiled function starts. -/
  | entered {address : Address} {activation : Activation} {after : Context}
      (resolved : context.memory.env.indirectFunction callee = .ok (.function address))
      (started : (context.count Statistics.recordCall).activate callee
        (context.memory.heap.function address) arguments = (.ok activation, after)) :
      Dispatched context callee arguments (.ok (.activation activation)) after
  /-- A compiled function does not start. -/
  | refused {address : Address} {fault : Fault} {after : Context}
      (resolved : context.memory.env.indirectFunction callee = .ok (.function address))
      (started : (context.count Statistics.recordCall).activate callee
        (context.memory.heap.function address) arguments = (.error fault, after)) :
      Dispatched context callee arguments (.error fault) after
  /-- A built-in function gives a value. -/
  | answered {primitive : Primitive} {value : Value} {after : Context}
      (resolved : context.memory.env.indirectFunction callee = .ok (.primitive primitive))
      (performed : ((context.count Statistics.recordCall).count
        Statistics.recordPrimitive).perform (primitive.call arguments) = (.ok value, after)) :
      Dispatched context callee arguments (.ok (.value value)) after
  /-- A built-in function fails. -/
  | failed {primitive : Primitive} {fault : Fault} {after : Context}
      (resolved : context.memory.env.indirectFunction callee = .ok (.primitive primitive))
      (performed : ((context.count Statistics.recordCall).count
        Statistics.recordPrimitive).perform (primitive.call arguments) = (.error fault, after)) :
      Dispatched context callee arguments (.error fault) after

/-- Whatever a call does at first is one of these. -/
theorem dispatched {context after : Context} {callee : Value} {arguments : List Value}
    {result : Except Fault Dispatch} (ran : context.dispatch callee arguments = (result, after)) :
    Dispatched context callee arguments result after := by
  unfold dispatch at ran
  dsimp only at ran
  split at ran
  · rename_i unresolved
    cases ran
    exact .unknown (Environment.cause_of_indirectFunction_eq_error unresolved)
  · rename_i address resolved
    split at ran
    · rename_i started
      cases ran
      exact .entered resolved started
    · rename_i started
      cases ran
      exact .refused resolved started
  · rename_i primitive resolved
    split at ran
    · rename_i performed
      cases ran
      exact .answered resolved performed
    · rename_i performed
      cases ran
      exact .failed resolved performed
  · cases ran
    exact .unknown (.inr ⟨_, rfl⟩)

end Context

namespace Machine

/-- Where a machine stands: it is about to execute an instruction, or it has a result
for the innermost of the activations that wait for one. -/
inductive Phase where
  | running (machine : Machine)
  | delivering (context : Context) (waiting : List Activation) (result : Result)

/-- One transition of a machine. -/
inductive Phase.Next : Phase → Phase → Prop where
  /-- The activation goes on by itself. -/
  | proceed {context after : Context} {activation moved : Activation}
      {callers : List Activation} {flow : Flow}
      (stepped : activation.step context = (.ok flow, after, moved))
      (onward : flow = .next ∨ ∃ target, flow = .jump target) :
      Next (.running ⟨context, activation, callers⟩) (.running ⟨after, moved, callers⟩)
  /-- The activation calls a compiled function and waits. -/
  | enter {context middle after : Context} {activation moved inner : Activation}
      {callers : List Activation} {callee : Value} {arguments : List Value}
      (stepped : activation.step context = (.ok (.call callee arguments), middle, moved))
      (dispatched : middle.dispatch callee arguments = (.ok (.activation inner), after)) :
      Next (.running ⟨context, activation, callers⟩) (.running ⟨after, inner, moved :: callers⟩)
  /-- The activation calls a built-in function, which gives a value. -/
  | answer {context middle after : Context} {activation moved : Activation}
      {callers : List Activation} {callee value : Value} {arguments : List Value}
      (stepped : activation.step context = (.ok (.call callee arguments), middle, moved))
      (dispatched : middle.dispatch callee arguments = (.ok (.value value), after)) :
      Next (.running ⟨context, activation, callers⟩)
        (.delivering after (moved :: callers) (.ok value))
  /-- The activation makes a call that fails at once. -/
  | refuse {context middle after : Context} {activation moved : Activation}
      {callers : List Activation} {callee : Value} {arguments : List Value} {fault : Fault}
      (stepped : activation.step context = (.ok (.call callee arguments), middle, moved))
      (dispatched : middle.dispatch callee arguments = (.error fault, after)) :
      Next (.running ⟨context, activation, callers⟩)
        (.delivering after (moved :: callers) (.error ⟨fault, []⟩))
  /-- The activation returns. -/
  | leave {context after : Context} {activation moved : Activation}
      {callers : List Activation} {value : Value}
      (stepped : activation.step context = (.ok (.leave value), after, moved)) :
      Next (.running ⟨context, activation, callers⟩)
        (.delivering (after.finish moved (.ok value)) callers (.ok value))
  /-- The activation fails. -/
  | fail {context after : Context} {activation moved : Activation}
      {callers : List Activation} {failure : Failure}
      (stepped : activation.step context = (.error failure, after, moved)) :
      Next (.running ⟨context, activation, callers⟩)
        (.delivering (after.finish moved (.error failure)) callers (.error failure))
  /-- A waiting activation takes a result and runs again. -/
  | resume {context : Context} {caller resumed : Activation} {callers : List Activation}
      {result : Result} (received : caller.receive result = .ok resumed) :
      Next (.delivering context (caller :: callers) result) (.running ⟨context, resumed, callers⟩)
  /-- A waiting activation fails with the result. -/
  | unwind {context : Context} {caller : Activation} {callers : List Activation}
      {result : Result} {failure : Failure} (received : caller.receive result = .error failure) :
      Next (.delivering context (caller :: callers) result)
        (.delivering (context.exit caller.base caller.stack.highWater true) callers
          (.error failure))

/-- Any number of transitions. -/
abbrev Phase.Reaches : Phase → Phase → Prop :=
  Relation.ReflTransGen Phase.Next

/-- The phase at the end of a step. -/
def State.phase : State → Phase
  | .running machine => .running machine
  | .done context result => .delivering context [] result

/-- Handing a result to the activations that wait is a run. -/
theorem reaches_resume (context : Context) (waiting : List Activation) (result : Result) :
    Phase.Reaches (.delivering context waiting result) (resume context waiting result).phase := by
  induction waiting generalizing context result with
  | nil => exact .refl
  | cons caller callers ih =>
      simp only [resume]
      split
      · rename_i received
        exact .single (.resume received)
      · rename_i failure received
        exact .head (.unwind received) (ih _ _)

/-- A step of the machine is a run. -/
theorem reaches_step (machine : Machine) : Phase.Reaches (.running machine) machine.step.phase := by
  obtain ⟨context, activation, callers⟩ := machine
  simp only [step]
  split
  · rename_i stepped
    exact .single (.proceed stepped (.inl rfl))
  · rename_i stepped
    exact .single (.proceed stepped (.inr ⟨_, rfl⟩))
  · rename_i stepped
    split
    · rename_i dispatched
      exact .single (.enter stepped dispatched)
    · rename_i dispatched
      exact .head (.answer stepped dispatched) (reaches_resume _ _ _)
    · rename_i dispatched
      exact .head (.refuse stepped dispatched) (reaches_resume _ _ _)
  · rename_i stepped
    exact .head (.leave stepped) (reaches_resume _ _ _)
  · rename_i stepped
    exact .head (.fail stepped) (reaches_resume _ _ _)

/-- A machine that is done has run to its result. -/
theorem reaches_of_run {fuel : Nat} {machine : Machine} {result : Result} {after : Context}
    (ran : run fuel machine = some (result, after)) :
    Phase.Reaches (.running machine) (.delivering after [] result) := by
  induction fuel generalizing machine with
  | zero => cases ran
  | succ fuel ih =>
      have first := reaches_step machine
      simp only [run] at ran
      split at ran
      · rename_i moved stepped
        rw [stepped] at first
        exact first.trans (ih ran)
      · rename_i stepped
        rw [stepped] at first
        cases ran
        exact first

/-- The machine comes to an end with this result. -/
def State.EndsWith (result : Result) (after : Context) : State → Prop
  | .running machine => ∃ fuel, run fuel machine = some (result, after)
  | .done context given => given = result ∧ context = after

/-- A machine whose step ends with a result is done after some steps. -/
theorem exists_run_of_step {machine : Machine} {result : Result} {after : Context}
    (ends : machine.step.EndsWith result after) :
    ∃ fuel, run fuel machine = some (result, after) := by
  cases stepped : machine.step with
  | running moved =>
      rw [stepped] at ends
      obtain ⟨fuel, ran⟩ := ends
      exact ⟨fuel + 1, by rw [run, stepped]; exact ran⟩
  | done context given =>
      rw [stepped] at ends
      obtain ⟨rfl, rfl⟩ := ends
      exact ⟨1, by rw [run, stepped]⟩

/-- The state of the machine once it executes instructions again, or is done. -/
def Phase.settle : Phase → State
  | .running machine => .running machine
  | .delivering context waiting result => resume context waiting result

/-- What the next phase ends with, this phase ends with. -/
theorem Phase.Next.endsWith {before middle : Phase} {result : Result} {after : Context}
    (next : Next before middle) (ends : middle.settle.EndsWith result after) :
    before.settle.EndsWith result after := by
  cases next with
  | proceed stepped onward =>
      apply exists_run_of_step
      obtain rfl | ⟨target, rfl⟩ := onward <;> simp only [step, stepped] <;> exact ends
  | enter stepped dispatched | answer stepped dispatched | refuse stepped dispatched =>
      apply exists_run_of_step
      simp only [step, stepped, dispatched]
      exact ends
  | leave stepped | fail stepped =>
      apply exists_run_of_step
      simp only [step, stepped]
      exact ends
  | resume received | unwind received =>
      simp only [settle, Machine.resume, received]
      exact ends

/-- A phase from which a result is reached ends with it. -/
theorem Phase.Reaches.endsWith {before : Phase} {result : Result} {after : Context}
    (reached : Reaches before (.delivering after [] result)) :
    before.settle.EndsWith result after := by
  induction reached using Relation.ReflTransGen.head_induction_on with
  | refl => exact ⟨rfl, rfl⟩
  | head next _ ih => exact next.endsWith ih

/-- A machine comes to an end exactly when it reaches a result for which no activation
waits. -/
theorem exists_run_iff_reaches {machine : Machine} {result : Result} {after : Context} :
    (∃ fuel, run fuel machine = some (result, after)) ↔
      Phase.Reaches (.running machine) (.delivering after [] result) := by
  constructor
  · rintro ⟨fuel, ran⟩
    exact reaches_of_run ran
  · intro reached
    exact reached.endsWith

end Machine

namespace Context

open Machine

/-- How a call comes to an end. -/
inductive Returned (context : Context) (callee : Value) (arguments : List Value) :
    Result → Context → Prop where
  /-- A built-in function has given a value. -/
  | answered {value : Value} {after : Context}
      (dispatched : context.dispatch callee arguments = (.ok (.value value), after)) :
      Returned context callee arguments (.ok value) after
  /-- The machine that was started has come to an end. -/
  | ended {activation : Activation} {started after : Context} {result : Result}
      (dispatched : context.dispatch callee arguments = (.ok (.activation activation), started))
      (reached : Phase.Reaches (.running { context := started, activation })
        (.delivering after [] result)) :
      Returned context callee arguments result after
  /-- The call has failed at once. -/
  | refused {fault : Fault} {after : Context}
      (dispatched : context.dispatch callee arguments = (.error fault, after)) :
      Returned context callee arguments (.error ⟨fault, []⟩) after

/-- Whatever a call returns, it returns in one of these ways. -/
theorem returned {context after : Context} {fuel : Nat} {callee : Value} {arguments : List Value}
    {result : Result} (called : context.call fuel callee arguments = some (result, after)) :
    context.Returned callee arguments result after := by
  unfold call at called
  split at called
  · rename_i dispatched
    cases called
    exact .answered dispatched
  · rename_i dispatched
    exact .ended dispatched (reaches_of_run called)
  · rename_i dispatched
    cases called
    exact .refused dispatched

end Context

end ByteLisp
