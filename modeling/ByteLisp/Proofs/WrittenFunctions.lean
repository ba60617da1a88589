import ByteLisp.Proofs.DatumRoundTrip
import ByteLisp.Proofs.InstructionParts
import ByteLisp.Proofs.MachineInvariant

/-!
# Functions come from values

Nothing that a program can do changes a function, and every function that it makes has
parameters that were read from a value. So the same holds of every heap that has been filled by
reading data, by making functions and by calls. Such parameters can be written down, which is
the condition on functions under which a value can be saved.
-/

namespace ByteLisp

open Machine

/-! ## Programs -/

/-- The heap that a program of an activation works on. -/
def Running.heap (running : Running) : Heap :=
  running.context.memory.heap

section Programs

variable {α : Type}

/-- An operation on the environment does not touch the heap. -/
theorem keepsFunctions_onEnv (operation : EnvM α) :
    KeepsFunctions Memory.heap (Action.onEnv operation) :=
  fun memory => .refl memory.heap

/-- An operation on the heap keeps functions as an action. -/
theorem keepsFunctions_onHeap {operation : HeapM α} (kept : operation.KeepsFunctions) :
    KeepsFunctions Memory.heap (Action.onHeap operation) :=
  fun memory => kept memory.heap

/-- An operation on the operand stack does not touch the heap. -/
theorem keepsFunctions_onStack (operation : StackM α) :
    KeepsFunctions Running.heap (ExecM.onStack operation) :=
  fun running => .refl running.heap

/-- An action keeps functions within an instruction. -/
theorem keepsFunctions_perform {action : Action α} (kept : KeepsFunctions Memory.heap action) :
    KeepsFunctions Running.heap (ExecM.perform action) :=
  fun running => kept running.context.memory

/-- Counting leaves the heap alone. -/
theorem keepsFunctions_counted {action : Action Unit} (kept : KeepsFunctions Memory.heap action)
    (update : Statistics → Statistics) :
    KeepsFunctions Running.heap (do
      ExecM.perform action
      ExecM.count update
      return Flow.next) :=
  keepsFunctions_bind (keepsFunctions_perform kept) fun _ =>
    keepsFunctions_bind (fun running => .refl running.heap) fun _ => keepsFunctions_pure _

/-- Undoing bindings does not touch the heap. -/
theorem Execute.keepsFunctions_unbind (base requested : Nat) :
    KeepsFunctions Running.heap (unbind base requested) := by
  refine keepsFunctions_counted (keepsFunctions_bind (fun memory => .refl memory.heap)
    fun available => ?_) _
  dsimp only
  split
  · exact keepsFunctions_throw _
  · exact keepsFunctions_onEnv _

/-- What the parts of instructions do to functions, instructions do to them. -/
theorem ExecM.Composed.keepsFunctions {program : ExecM α} (composed : Composed program) :
    KeepsFunctions Running.heap program := by
  induction composed with
  | pure value => exact keepsFunctions_pure value
  | bind _ _ first next => exact keepsFunctions_bind first next
  | onStack operation => exact keepsFunctions_onStack operation
  | steady steady => exact keepsFunctions_perform steady.functions
  | binding symbol value => exact keepsFunctions_counted (keepsFunctions_onEnv _) _
  | unbinding base requested => exact Execute.keepsFunctions_unbind base requested

end Programs

/-- An instruction keeps functions. -/
theorem Activation.keepsFunctions_step {activation moved : Activation} {context after : Context}
    {result : Except Failure Flow} (ran : activation.step context = (result, after, moved)) :
    context.memory.heap.KeepsFunctions after.memory.heap := by
  obtain ⟨rfl, rfl⟩ | ⟨instruction, next, outcome, place, left, decoded, executed, rfl, rfl⟩ :=
    step_effect ran
  · exact .refl _
  · have composed := Execute.composed_operation activation.function.constants activation.base
      instruction.opcode instruction.operand
    have kept := composed.keepsFunctions ⟨context.recordInstruction activation.pc instruction
      activation.stack.depth, activation.stack⟩
    unfold Execute.instruction at executed
    rw [executed] at kept
    simpa only [Running.heap, Context.memory_recordInstruction] using kept

/-! ## Calls and runs -/

namespace Calling

/-- Binding names does not touch the heap. -/
theorem keepsFunctions_bindNames (names : List Symbol) (arguments : List Value) :
    KeepsFunctions Memory.heap (bindNames names arguments) := by
  induction names generalizing arguments with
  | nil => exact keepsFunctions_pure _
  | cons name names ih => exact keepsFunctions_bind (keepsFunctions_onEnv _) fun _ => ih _

/-- Passing arguments by name makes a list of the further arguments at most. -/
theorem keepsFunctions_bindDynamic (callee : Value) (list : ParameterList)
    (arguments : List Value) :
    KeepsFunctions Memory.heap (bindDynamic callee list arguments) := by
  unfold bindDynamic
  dsimp only
  split
  · exact keepsFunctions_throw _
  · refine keepsFunctions_bind (keepsFunctions_bindNames _ _) fun further => ?_
    split
    · exact keepsFunctions_bind (keepsFunctions_onHeap (HeapM.keepsFunctions_list _)) fun _ =>
        keepsFunctions_bind (keepsFunctions_onEnv _) fun _ => keepsFunctions_pure _
    · exact keepsFunctions_pure _

/-- So does filling the slots of arguments. -/
theorem keepsFunctions_slots (descriptor : Descriptor) (arguments : List Value) :
    (slots descriptor arguments).KeepsFunctions := by
  unfold slots
  dsimp only
  split
  · exact keepsFunctions_bind (HeapM.keepsFunctions_list _) fun _ => keepsFunctions_pure _
  · exact keepsFunctions_pure _

/-- So does laying them out. -/
theorem keepsFunctions_pushLexical (callee : Value) (descriptor : Descriptor)
    (arguments : List Value) (maxDepth : Nat) :
    (pushLexical callee descriptor arguments maxDepth).KeepsFunctions := by
  unfold pushLexical
  dsimp only
  split
  · exact keepsFunctions_throw _
  · refine keepsFunctions_bind (keepsFunctions_slots _ _) fun values => ?_
    split
    · exact keepsFunctions_pure _
    · exact keepsFunctions_throw _

/-- Passing arguments keeps functions: it makes lists at most. -/
theorem keepsFunctions_prepare (callee : Value) (function : Function) (arguments : List Value) :
    KeepsFunctions Memory.heap (prepare callee function arguments) := by
  unfold prepare
  split
  · exact keepsFunctions_bind (keepsFunctions_bindDynamic _ _ _) fun _ => keepsFunctions_pure _
  · exact keepsFunctions_bind (keepsFunctions_onHeap (keepsFunctions_pushLexical _ _ _ _))
      fun _ => keepsFunctions_pure _

end Calling

namespace Context

variable {context after : Context} {callee : Value} {arguments : List Value}

/-- Starting an activation keeps functions, whether it succeeds or not. -/
theorem keepsFunctions_activate {function : Function} {result : Except Fault Activation}
    (ran : context.activate callee function arguments = (result, after)) :
    context.memory.heap.KeepsFunctions after.memory.heap := by
  have kept := Calling.keepsFunctions_prepare callee function arguments context.memory
  cases activated ran with
  | tooDeep => exact .refl _
  | unfit room prepared | ready room prepared =>
      rw [prepared] at kept
      exact kept

/-- A call that is answered at once, or begun, keeps functions. -/
theorem keepsFunctions_dispatch {result : Except Fault Dispatch}
    (ran : context.dispatch callee arguments = (result, after)) :
    context.memory.heap.KeepsFunctions after.memory.heap := by
  cases dispatched ran with
  | unknown => exact .refl _
  | entered resolved started | refused resolved started =>
      have kept := keepsFunctions_activate started
      exact kept
  | @answered primitive _ _ resolved performed | @failed primitive _ _ resolved performed =>
      obtain rfl := congrArg Prod.snd performed
      exact (primitive.steady_call arguments).functions context.memory

/-- Whatever a machine does, it keeps functions. -/
theorem lasting_keepsFunctions (heap : Heap) :
    Lasting fun context => heap.KeepsFunctions context.memory.heap where
  step kept ran := kept.trans (Activation.keepsFunctions_step ran)
  dispatch kept ran := kept.trans (keepsFunctions_dispatch ran)
  exit kept _ _ _ := kept

/-- A call keeps functions, however it ends. -/
theorem keepsFunctions_call {fuel : Nat} {result : Result}
    (called : context.call fuel callee arguments = some (result, after)) :
    context.memory.heap.KeepsFunctions after.memory.heap :=
  (lasting_keepsFunctions _).call called (.refl _)

end Context

/-! ## Data -/

namespace Datum

mutual

/-- Making the value of a datum keeps functions, also where it makes some. -/
theorem keepsFunctions_toValue : ∀ datum : Datum, datum.toValue.KeepsFunctions
  | .nil | .int _ | .float _ | .symbol _ => by
      rw [toValue]
      exact keepsFunctions_pure _
  | .string _ => by
      rw [toValue]
      exact HeapM.keepsFunctions_make fun _ => rfl
  | .list items => by
      rw [toValue]
      exact keepsFunctions_bind (keepsFunctions_itemsToValues items) fun _ =>
        HeapM.keepsFunctions_list _
  | .dotted items tail => by
      rw [toValue]
      exact keepsFunctions_bind (keepsFunctions_itemsToValues items) fun _ =>
        keepsFunctions_bind (keepsFunctions_toValue tail) fun _ =>
          HeapM.keepsFunctions_make fun heap => heap.functions_listWithTail _ _
  | .vector items => by
      rw [toValue]
      exact keepsFunctions_bind (keepsFunctions_itemsToValues items) fun _ =>
        HeapM.keepsFunctions_newVector _
  | .function literal => by
      rw [toValue]
      exact keepsFunctions_literalToValue literal

/-- So does making the values of several data. -/
theorem keepsFunctions_itemsToValues : ∀ items, (itemsToValues items).KeepsFunctions
  | [] => by
      rw [itemsToValues]
      exact keepsFunctions_pure _
  | item :: items => by
      rw [itemsToValues]
      exact keepsFunctions_bind (keepsFunctions_toValue item) fun _ =>
        keepsFunctions_bind (keepsFunctions_itemsToValues items) fun _ => keepsFunctions_pure _

/-- So does making the value of a datum that may be missing. -/
theorem keepsFunctions_optionToValue : ∀ option, (optionToValue option).KeepsFunctions
  | none => by
      rw [optionToValue]
      exact keepsFunctions_pure _
  | some datum => by
      rw [optionToValue]
      exact keepsFunctions_bind (keepsFunctions_toValue datum) fun _ => keepsFunctions_pure _

/-- So does making a function from its literal. -/
theorem keepsFunctions_literalToValue : ∀ literal, (literalToValue literal).KeepsFunctions
  | ⟨parameters, code, constants, maxDepth, documentation, interactive⟩ => by
      rw [literalToValue]
      exact keepsFunctions_bind (keepsFunctions_toValue parameters) fun _ =>
        keepsFunctions_bind (keepsFunctions_itemsToValues constants) fun _ =>
          keepsFunctions_bind (keepsFunctions_optionToValue interactive) fun _ =>
            Functions.keepsFunctions_make _ _ _ _ _ _

end

end Datum

/-! ## Heaps that can be saved from -/

namespace Heap

/-- The heaps that a host can come to: it starts without any object, reads data and literals of
functions, makes functions and calls them. -/
inductive Arises : Heap → Prop where
  | empty : Arises {}
  | datum {heap : Heap} (arises : Arises heap) (datum : Datum) : Arises (datum.toValue heap).2
  | literal {heap : Heap} (arises : Arises heap) (literal : FunctionLiteral) :
      Arises (literal.toValue heap).2
  | function {heap : Heap} (arises : Arises heap) (parameters : Value) (code : Bytes)
      (constants : Array Value) (maxDepth : Nat) (documentation : Option Documentation)
      (interactive : Option Value) :
      Arises (Functions.make parameters code constants maxDepth documentation interactive heap).2
  | call {context after : Context} {fuel : Nat} {callee : Value} {arguments : List Value}
      {result : Result} (arises : Arises context.memory.heap)
      (called : context.call fuel callee arguments = some (result, after)) :
      Arises after.memory.heap

variable {heap : Heap} {value : Value}

/-- Every function in such a heap has parameters that were read from a value. -/
theorem Arises.written (arises : heap.Arises) : heap.Written := by
  induction arises with
  | empty => exact written_empty
  | datum _ datum ih => exact (datum.keepsFunctions_toValue _).written ih
  | literal _ literal ih => exact (Datum.keepsFunctions_literalToValue literal _).written ih
  | function _ parameters code constants maxDepth documentation interactive ih =>
      exact (Functions.keepsFunctions_make _ _ _ _ _ _ _).written ih
  | call _ called ih => exact (Context.keepsFunctions_call called).written ih

/-- In such a heap the conditions for saving a value are those that can fail: cycles, built-in
functions and depths that are too large. -/
theorem Arises.saveable_iff (arises : heap.Arises) :
    heap.Saveable value ↔
      heap.Acyclic value ∧ (∀ builtIn, ¬ heap.Inside (.primitive builtIn) value) ∧
        ∀ address, heap.Inside (.function address) value →
          (heap.function address).maxDepth < UInt32.size := by
  constructor
  · intro saveable
    exact ⟨saveable.acyclic, saveable.noBuiltIn, saveable.depth⟩
  · rintro ⟨acyclic, noBuiltIn, depth⟩
    exact ⟨acyclic, noBuiltIn, depth, fun address _ => arises.written address⟩

end Heap

end ByteLisp
