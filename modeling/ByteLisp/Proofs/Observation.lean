import ByteLisp.Proofs.Phases
import ByteLisp.Proofs.InstructionParts
import Mathlib.Tactic.Choose

/-!
# Observing without taking part

Statistics and trace are written to and never read. An instruction therefore computes its
outcome from the memory and the operand stack alone; of the rest of the context it only
brings the statistics up to date. `Execute.factors_operation` says so for every operation,
and from it follows what steps and calls leave of the trace.
-/

namespace ByteLisp

namespace ExecM

variable {α β : Type}

/-- What a program does to a memory and an operand stack, with the events that it counts. -/
structure Effect (α : Type) where
  outcome : Except Fault α
  memory : Memory
  stack : OperandStack
  tally : Statistics → Statistics

/-- The effect in a context, of which nothing but the statistics is looked at. -/
def Effect.apply (effect : Effect α) (context : Context) : Except Fault α × Running :=
  (effect.outcome, ⟨{ context with memory := effect.memory }.count effect.tally, effect.stack⟩)

/-- One effect after another: the events of both are counted. -/
def Effect.andThen (first : Effect α) (next : α → Memory → OperandStack → Effect β) : Effect β :=
  match first with
  | ⟨.error fault, memory, stack, tally⟩ => ⟨.error fault, memory, stack, tally⟩
  | ⟨.ok value, memory, stack, tally⟩ =>
    let after := next value memory stack
    { after with tally := after.tally ∘ tally }

/-- What the program does depends only on the memory and the operand stack. -/
def Factors (program : ExecM α) : Prop :=
  ∃ effect : Memory → OperandStack → Effect α, ∀ (context : Context) (stack : OperandStack),
    program ⟨context, stack⟩ = (effect context.memory stack).apply context

/-- Counting nothing changes nothing. -/
theorem count_id (context : Context) : context.count id = context := by
  obtain ⟨memory, settings, statistics, trace, callDepth, traced⟩ := context
  cases collects : settings.collectStatistics <;> simp [Context.count, collects]

/-- Counts in a row are one count, whatever happens to the memory in between. -/
theorem count_count (context : Context) (memory : Memory) (first second : Statistics → Statistics) :
    { context.count first with memory }.count second =
      { context with memory }.count (second ∘ first) := by
  obtain ⟨_, settings, statistics, trace, callDepth, traced⟩ := context
  cases collects : settings.collectStatistics <;> simp [Context.count, collects]

/-- A program that does nothing looks at nothing. -/
theorem factors_pure (value : α) : Factors (pure value : ExecM α) := by
  refine ⟨fun memory stack => ⟨.ok value, memory, stack, id⟩, fun context stack => ?_⟩
  simp only [Effect.apply, count_id]
  rfl

/-- Programs in a row look at no more than each of them does. -/
theorem factors_bind {program : ExecM α} {rest : α → ExecM β} (first : Factors program)
    (next : ∀ value, Factors (rest value)) : Factors (program >>= rest) := by
  obtain ⟨early, early_eq⟩ := first
  choose late late_eq using next
  refine ⟨fun memory stack => (early memory stack).andThen late, fun context stack => ?_⟩
  rw [run_bind, early_eq]
  dsimp only
  rcases early context.memory stack with ⟨fault | value, memory, left, tally⟩
  · rfl
  · simp only [Effect.apply, late_eq]
    rw [count_count]
    rfl

/-- An operation on the operand stack looks at nothing else. -/
theorem factors_onStack (operation : StackM α) : Factors (onStack operation) := by
  refine ⟨fun memory stack => ⟨(operation stack).1, memory, (operation stack).2, id⟩,
    fun context stack => ?_⟩
  simp only [Effect.apply, count_id]
  rfl

/-- An action looks at the memory and at nothing else. -/
theorem factors_perform (action : Action α) : Factors (perform action) := by
  refine ⟨fun memory stack => ⟨(action memory).1, (action memory).2, stack, id⟩,
    fun context stack => ?_⟩
  simp only [Effect.apply, count_id]
  rfl

/-- Counting looks at nothing: what is counted does not depend on the counters. -/
theorem factors_count (update : Statistics → Statistics) : Factors (count update) :=
  ⟨fun memory stack => ⟨.ok (), memory, stack, update⟩, fun _ _ => rfl⟩

/-- An action that is counted looks at no more than the action. -/
theorem factors_counted (action : Action α) (update : Statistics → Statistics) (value : β) :
    Factors (perform action >>= fun _ => count update >>= fun _ => pure value) :=
  factors_bind (factors_perform _) fun _ => factors_bind (factors_count _) fun _ => factors_pure _

/-- No instruction looks at anything but the memory and the operand stack. -/
theorem Composed.factors {program : ExecM α} (composed : Composed program) : Factors program := by
  induction composed with
  | pure value => exact factors_pure value
  | bind _ _ first next => exact factors_bind first next
  | onStack operation => exact factors_onStack operation
  | steady => exact factors_perform _
  | binding | unbinding => exact factors_counted _ _ _

end ExecM

/-- Every operation works on the memory and the operand stack alone. -/
theorem Execute.factors_operation (constants : Array Value) (base : Nat) (opcode : Opcode)
    (operand : UInt16) : ExecM.Factors (operation constants base opcode operand) :=
  (composed_operation constants base opcode operand).factors

/-! ## The trace -/

/-- Nothing was traced between the two contexts. -/
structure Context.SameTrace (before after : Context) : Prop where
  trace : after.trace = before.trace
  traced : after.traced = before.traced

namespace Context.SameTrace

variable {before middle after : Context}

/-- What does nothing leaves the trace alone. -/
theorem refl (context : Context) : SameTrace context context :=
  ⟨rfl, rfl⟩

/-- So do two changes in a row when each of them does. -/
theorem trans (first : SameTrace before middle) (second : SameTrace middle after) :
    SameTrace before after :=
  ⟨second.trace.trans first.trace, second.traced.trans first.traced⟩

end Context.SameTrace

/-- A program that looks at nothing else leaves the trace alone. -/
theorem ExecM.Factors.sameTrace {α : Type} {program : ExecM α} (factors : Factors program)
    {running after : Running} {outcome : Except Fault α}
    (ran : program running = (outcome, after)) :
    running.context.SameTrace after.context := by
  obtain ⟨effect, effect_eq⟩ := factors
  obtain ⟨context, stack⟩ := running
  rw [effect_eq] at ran
  cases ran
  exact ⟨rfl, rfl⟩

/-- An instruction adds nothing to the trace beyond the entry that was made before it. -/
theorem Execute.sameTrace_instruction {constants : Array Value} {base : Nat}
    {instruction : Instruction} {running after : Running} {outcome : Except Fault Flow}
    (executed : Execute.instruction constants base instruction running = (outcome, after)) :
    running.context.SameTrace after.context :=
  (factors_operation constants base instruction.opcode instruction.operand).sameTrace executed

namespace Context

/-- The end of an activation is not traced. -/
theorem sameTrace_exit (context : Context) (base highWater : Nat) (failed : Bool) :
    context.SameTrace (context.exit base highWater failed) :=
  ⟨rfl, rfl⟩

/-- The start of an activation is not traced. -/
theorem sameTrace_activate {context after : Context} {callee : Value} {function : Function}
    {arguments : List Value} {result : Except Fault Activation}
    (ran : context.activate callee function arguments = (result, after)) :
    context.SameTrace after := by
  cases activated ran with
  | tooDeep => exact .refl _
  | unfit room prepared => exact ⟨rfl, rfl⟩
  | ready room prepared => exact ⟨rfl, rfl⟩

/-- An action is not traced. -/
theorem sameTrace_perform {α : Type} {context after : Context} {action : Action α}
    {result : Except Fault α} (performed : context.perform action = (result, after)) :
    context.SameTrace after := by
  obtain rfl : (context.perform action).2 = after := congrArg Prod.snd performed
  exact ⟨rfl, rfl⟩

/-- A call traces nothing by itself. -/
theorem sameTrace_dispatch {context after : Context} {callee : Value} {arguments : List Value}
    {result : Except Fault Dispatch}
    (ran : context.dispatch callee arguments = (result, after)) : context.SameTrace after := by
  have counted : context.SameTrace (context.count Statistics.recordCall) := ⟨rfl, rfl⟩
  cases dispatched ran with
  | unknown => exact counted
  | entered resolved started | refused resolved started =>
      exact counted.trans (sameTrace_activate started)
  | answered resolved performed | failed resolved performed =>
      have inner := sameTrace_perform performed
      exact ⟨inner.trace, inner.traced⟩

end Context

end ByteLisp
