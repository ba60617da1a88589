import ByteLisp.Proofs.CallingConventions
import ByteLisp.Proofs.Diagnostics
import ByteLisp.Proofs.WrittenFunctions

/-!
# The balance of bindings

The statistics count every binding that is made and every binding that is undone, whoever
makes or undoes it: an instruction, the start of an activation or its end. The difference of
the two counters therefore follows the number of bindings in force, and both have grown by
the same amount once a call has come to an end.
-/

namespace ByteLisp

open Machine Environment

namespace Context

/-- The bindings that have been counted and not undone, less those in force. -/
def bindingMargin (context : Context) : Int :=
  context.statistics.bindingsPushed - context.statistics.bindingsRestored -
    context.memory.env.bindingDepth

/-- A context that collects statistics, whose functions have parameters that can be bound. -/
structure InBalance (margin : Int) (context : Context) : Prop where
  collects : context.settings.collectStatistics = true
  bindable : context.memory.heap.Bindable
  margin : context.bindingMargin = margin

/-- A context that collects statistics counts every event. -/
theorem statistics_count {context : Context} (collects : context.settings.collectStatistics = true)
    (update : Statistics → Statistics) :
    (context.count update).statistics = update context.statistics := by
  simp [count, collects]

namespace InBalance

variable {margin : Int} {context : Context}

/-- The balance is about the number of bindings in force, not about what else is in memory. -/
theorem withMemory (inBalance : context.InBalance margin) {memory : Memory}
    (bindable : memory.heap.Bindable)
    (depth : memory.env.bindingDepth = context.memory.env.bindingDepth) :
    { context with memory }.InBalance margin where
  collects := inBalance.collects
  bindable := bindable
  margin := by
    rw [← inBalance.margin]
    simp only [bindingMargin, depth]

/-- Bindings are made and undone, and both are counted. -/
theorem settle (inBalance : context.InBalance margin) (memory : Memory)
    (bindable : memory.heap.Bindable) (callDepth made undone : Nat)
    (update : Statistics → Statistics)
    (pushed : ∀ stats, (update stats).bindingsPushed = stats.bindingsPushed + made)
    (restored : ∀ stats, (update stats).bindingsRestored = stats.bindingsRestored + undone)
    (depth : memory.env.bindingDepth + undone = context.memory.env.bindingDepth + made) :
    (count { context with memory, callDepth } update).InBalance margin := by
  have collects : { context with memory, callDepth }.settings.collectStatistics = true :=
    inBalance.collects
  refine ⟨collects, bindable, ?_⟩
  have before := inBalance.margin
  unfold bindingMargin at before ⊢
  rw [statistics_count collects, memory_count, pushed, restored]
  dsimp only
  omega

/-- Other events leave the balance alone. -/
theorem count (inBalance : context.InBalance margin) {update : Statistics → Statistics}
    (pushed : ∀ stats, (update stats).bindingsPushed = stats.bindingsPushed)
    (restored : ∀ stats, (update stats).bindingsRestored = stats.bindingsRestored) :
    (context.count update).InBalance margin :=
  inBalance.settle context.memory inBalance.bindable context.callDepth 0 0 update pushed restored rfl

/-- Actions that make and undo no binding leave the balance alone. -/
theorem perform (inBalance : context.InBalance margin) {α : Type} {action : Action α}
    (steady : action.Steady) : (context.perform action).2.InBalance margin :=
  inBalance.withMemory ((steady.functions _).bindable inBalance.bindable)
    (congrArg Array.size (steady.bindings context.memory))

/-- Recording an instruction counts no binding. -/
theorem recordInstruction (inBalance : context.InBalance margin) (pc : Nat)
    (instruction : Instruction) (stackDepth : Nat) :
    (context.recordInstruction pc instruction stackDepth).InBalance margin := by
  have counted : (context.count (·.recordInstruction instruction.opcode)).InBalance margin := by
    apply inBalance.count
    · intro stats
      unfold Statistics.recordInstruction
      dsimp only
      split <;> rfl
    · intro stats
      unfold Statistics.recordInstruction
      dsimp only
      split <;> rfl
  rw [recordInstruction_eq]
  exact ⟨counted.collects, counted.bindable, counted.margin⟩

/-- An activation that ends counts the bindings that it undoes. -/
theorem exit (inBalance : context.InBalance margin) (base highWater : Nat) (failed : Bool) :
    (context.exit base highWater failed).InBalance margin := by
  refine inBalance.settle ⟨context.memory.heap, (context.memory.env.unbindTo base).2⟩
    inBalance.bindable (context.callDepth - 1) 0 (context.memory.env.unbindTo base).1
    (·.recordExit (context.memory.env.unbindTo base).1 highWater failed) (fun _ => rfl)
    (fun _ => rfl) ?_
  simp only [unbindTo, bindingDepth_undoMany]
  omega

end InBalance

end Context

/-! ## Instructions -/

/-- A binding is one more in force. -/
theorem Environment.bindingDepth_bound (env : Environment) (symbol : Symbol) (value : Value) :
    (env.bound symbol value).bindingDepth = env.bindingDepth + 1 := by
  simp [bindingDepth, bound]

namespace ExecM

variable {α β : Type}

/-- The program counts the bindings that it makes and undoes. -/
def KeepsBalance (program : ExecM α) : Prop :=
  ∀ margin running, running.context.InBalance margin →
    (program running).2.context.InBalance margin

/-- Programs in a row keep the balance when each of them does. -/
theorem keepsBalance_bind {program : ExecM α} {rest : α → ExecM β} (first : KeepsBalance program)
    (next : ∀ value, KeepsBalance (rest value)) : KeepsBalance (program >>= rest) := by
  intro margin running inBalance
  have middle := first margin running inBalance
  rw [run_bind]
  rcases ran : program running with ⟨fault | value, after⟩
  · rwa [ran] at middle
  · rw [ran] at middle
    exact next value margin after middle

/-- A binding that is made is counted as one; a constant is refused before. -/
theorem keepsBalance_binding (symbol : Symbol) (value : Value) :
    KeepsBalance (do
      perform (Action.onEnv (Environment.bind symbol value))
      count (·.recordBound 1)
      return Flow.next) := by
  intro margin running inBalance
  obtain ⟨context, stack⟩ := running
  simp only [run_bind, perform, Context.perform, Action.onEnv, bind_eq]
  by_cases constant : symbol.isConstant
  · simp only [constant, if_true]
    exact inBalance
  · simp only [constant]
    refine inBalance.settle { context.memory with env := context.memory.env.bound symbol value }
      inBalance.bindable context.callDepth 1 0 (·.recordBound 1) (fun _ => rfl) (fun _ => rfl)
      (bindingDepth_bound _ symbol value)

/-- Bindings are counted as restored when they are undone, and all or none are. -/
theorem keepsBalance_unbinding (base requested : Nat) :
    KeepsBalance (Execute.unbind base requested) := by
  intro margin running inBalance
  obtain ⟨context, stack⟩ := running
  unfold Execute.unbind
  simp only [run_bind, perform, Context.perform, Action.ask]
  by_cases few : context.memory.env.bindingDepth - base < requested
  · simp only [few, if_true]
    exact inBalance
  · have enough : requested ≤ context.memory.env.bindingDepth := by omega
    simp only [few, if_false, Action.onEnv, Environment.unbind, enough, if_true]
    refine inBalance.settle { context.memory with env := context.memory.env.undoMany requested }
      inBalance.bindable context.callDepth 0 requested (·.recordRestored requested)
      (fun _ => rfl) (fun _ => rfl) ?_
    simp only [bindingDepth_undoMany]
    omega

/-- What the parts of instructions keep, all instructions keep. -/
theorem Composed.keepsBalance {program : ExecM α} (composed : Composed program) :
    KeepsBalance program := by
  induction composed with
  | pure | onStack => exact fun _ _ inBalance => inBalance
  | bind _ _ first next => exact keepsBalance_bind first next
  | steady steady => exact fun _ _ inBalance => inBalance.perform steady
  | binding symbol value => exact keepsBalance_binding symbol value
  | unbinding base requested => exact keepsBalance_unbinding base requested

end ExecM

/-- An instruction keeps the balance, whether it succeeds or fails. -/
theorem Activation.inBalance_step {activation moved : Activation} {context after : Context}
    {result : Except Failure Flow} {margin : Int} (inBalance : context.InBalance margin)
    (ran : activation.step context = (result, after, moved)) : after.InBalance margin := by
  obtain ⟨rfl, rfl⟩ | ⟨instruction, next, outcome, place, left, decoded, executed, rfl, rfl⟩ :=
    step_effect ran
  · exact inBalance
  · have recorded := inBalance.recordInstruction activation.pc instruction activation.stack.depth
    have keeps := (Execute.composed_operation activation.function.constants activation.base
      instruction.opcode instruction.operand).keepsBalance
    have executes := keeps margin ⟨context.recordInstruction activation.pc instruction
      activation.stack.depth, activation.stack⟩ recorded
    unfold Execute.instruction at executed
    rwa [executed] at executes

/-! ## Calls -/

/-- Each name is one more binding in force. -/
theorem Environment.bindingDepth_boundTo (env : Environment) (names : List Symbol)
    (values : List Value) :
    (env.boundTo names values).bindingDepth = env.bindingDepth + names.length := by
  induction names generalizing env values with
  | nil => rfl
  | cons name names ih =>
      rw [boundTo, ih, bindingDepth_bound, List.length_cons]
      omega

namespace Calling

/-- Names that can be bound are all bound, or none is. -/
theorem bindDynamic_cases {list : ParameterList}
    (bindable : ∀ name ∈ list.names, name.isConstant = false) (callee : Value)
    (arguments : List Value) (memory : Memory) :
    bindDynamic callee list arguments memory =
        (.error (mismatch callee list.arity arguments), memory) ∨
      ∃ after, bindDynamic callee list arguments memory = (.ok list.bindingCount, after) ∧
        after.env.bindingDepth = memory.env.bindingDepth + list.bindingCount := by
  have plainNames : ∀ name ∈ list.required ++ list.optional, name.isConstant = false :=
    fun name isIn => bindable name (List.mem_append_left _ isIn)
  have bound := bindNames_eq plainNames arguments memory
  have count := list.length_names
  unfold bindDynamic
  dsimp only
  split
  · exact .inl rfl
  · right
    cases rest : list.rest with
    | none =>
        have names : list.names = list.required ++ list.optional := by
          simp [ParameterList.names, rest]
        rw [← names] at bound ⊢
        rw [run_bind, bound]
        refine ⟨{ memory with env := memory.env.boundTo list.names arguments }, rfl, ?_⟩
        rw [← count]
        exact bindingDepth_boundTo _ _ _
    | some name =>
        have names : list.names = list.required ++ list.optional ++ [name] := by
          simp [ParameterList.names, rest]
        have last : name.isConstant = false := bindable name (by simp [names])
        rw [run_bind, bound]
        simp only [run_bind, Action.onHeap, HeapM.make, Action.onEnv, bind_eq, last,
          Bool.false_eq_true, if_false]
        refine ⟨_, rfl, ?_⟩
        have more : list.bindingCount = (list.required ++ list.optional).length + 1 := by
          rw [← count, names, List.length_append, List.length_singleton]
        rw [more, bindingDepth_bound, bindingDepth_boundTo, Nat.add_assoc]

/-- What passing arguments does to bindings, when the parameters can be bound. -/
theorem bindingDepth_prepare {function : Function} (bindable : function.parameters.Bindable)
    {callee : Value} {arguments : List Value} {memory after : Memory}
    {outcome : Except Fault (OperandStack × Nat)}
    (prepared : prepare callee function arguments memory = (outcome, after)) :
    after.env.bindingDepth = memory.env.bindingDepth +
      match outcome with
      | .ok (_, bound) => bound
      | .error _ => 0 := by
  unfold prepare at prepared
  cases parameters : function.parameters with
  | dynamic list =>
      rw [parameters] at bindable prepared
      dsimp only at prepared
      rw [run_bind] at prepared
      obtain refused | ⟨left, ran, depth⟩ := bindDynamic_cases bindable callee arguments memory
      · rw [refused] at prepared
        cases prepared
        rfl
      · rw [ran] at prepared
        cases prepared
        exact depth
  | lexical descriptor =>
      rw [parameters] at prepared
      dsimp only at prepared
      rw [run_bind] at prepared
      simp only [Action.onHeap] at prepared
      rcases laid : pushLexical callee descriptor arguments function.maxDepth memory.heap with
        ⟨fault | stack, heap⟩
      · rw [laid] at prepared
        cases prepared
        rfl
      · rw [laid] at prepared
        cases prepared
        rfl

end Calling

namespace Context.InBalance

variable {margin : Int} {context after : Context} {callee : Value} {arguments : List Value}

/-- The bindings of a new activation are counted; one that does not start has made none. -/
theorem activate {function : Function} {result : Except Fault Activation}
    (inBalance : context.InBalance margin) (bindable : function.parameters.Bindable)
    (ran : context.activate callee function arguments = (result, after)) :
    after.InBalance margin := by
  have kept := Calling.keepsFunctions_prepare callee function arguments context.memory
  cases activated ran with
  | tooDeep => exact inBalance
  | @unfit fault memory room prepared =>
      rw [prepared] at kept
      have depth := Calling.bindingDepth_prepare bindable prepared
      -- The arguments were refused before any name was bound, so there is nothing to undo.
      have entered : { context with memory }.InBalance margin :=
        inBalance.withMemory (kept.bindable inBalance.bindable) depth
      have deeper : { context with memory, callDepth := context.callDepth + 1 }.InBalance margin :=
        ⟨entered.collects, entered.bindable, entered.margin⟩
      exact deeper.exit _ _ _
  | @ready stack bound memory room prepared =>
      rw [prepared] at kept
      refine inBalance.settle memory (kept.bindable inBalance.bindable) (context.callDepth + 1)
        bound 0 _ (fun stats => ?_) (fun stats => ?_)
        (Calling.bindingDepth_prepare bindable prepared)
      · cases function.parameters.convention <;> rfl
      · cases function.parameters.convention <;> rfl

/-- A call that is answered at once, or begun, keeps the balance. -/
theorem dispatch {result : Except Fault Dispatch} (inBalance : context.InBalance margin)
    (ran : context.dispatch callee arguments = (result, after)) : after.InBalance margin := by
  have called : (context.count Statistics.recordCall).InBalance margin :=
    inBalance.count (fun _ => rfl) (fun _ => rfl)
  cases dispatched ran with
  | unknown => exact called
  | entered resolved started | refused resolved started =>
      exact called.activate (inBalance.bindable _) started
  | @answered primitive value _ resolved performed | @failed primitive fault _ resolved performed =>
      have counted : ((context.count Statistics.recordCall).count
          Statistics.recordPrimitive).InBalance margin :=
        called.count (fun _ => rfl) (fun _ => rfl)
      have answered := counted.perform (primitive.steady_call arguments)
      rwa [performed] at answered

end Context.InBalance

namespace Context

/-- Whatever a machine does, it counts the bindings that it makes and undoes. -/
theorem lasting_inBalance (margin : Int) : Lasting (InBalance margin) where
  step := Activation.inBalance_step
  dispatch := InBalance.dispatch
  exit := InBalance.exit

/-- By how much a number has grown. -/
def growth (measure : Context → Nat) (before after : Context) : Int :=
  measure after - measure before

/-- Between two contexts in balance, the counters and the bindings in force grow alike. -/
theorem InBalance.growth {margin : Int} {context after : Context}
    (before : context.InBalance margin) (behind : after.InBalance margin) :
    growth (·.statistics.bindingsPushed) context after -
        growth (·.statistics.bindingsRestored) context after =
      growth (·.memory.env.bindingDepth) context after := by
  have same := before.margin.trans behind.margin.symm
  unfold bindingMargin at same
  dsimp only [Context.growth]
  omega

/-- Where statistics are collected, and the parameters of every function can be bound, as
those of a function always can that has been made: at every point of a run, and after a call
that has come to an end in whatever way, the bindings counted as made since the call began,
less those counted as undone, are as many as the bindings in force have become more. Once the
call has ended both counters have grown by the same amount. -/
theorem bindings_counted_in_balance (context : Context)
    (collects : context.settings.collectStatistics = true)
    (bindable : context.memory.heap.Bindable) (callee : Value) (arguments : List Value) :
    (∀ machine phase, context.Starts callee arguments machine →
      Phase.Reaches (.running machine) phase →
      growth (·.statistics.bindingsPushed) context phase.context -
          growth (·.statistics.bindingsRestored) context phase.context =
        growth (·.memory.env.bindingDepth) context phase.context) ∧
    ∀ fuel result after,
      (context.call fuel callee arguments = some (result, after) ∨
        ∃ address, callee = .function address ∧
          context.invoke fuel address arguments = some (result, after)) →
      growth (·.statistics.bindingsPushed) context after -
          growth (·.statistics.bindingsRestored) context after =
        growth (·.memory.env.bindingDepth) context after ∧
      growth (·.statistics.bindingsPushed) context after =
        growth (·.statistics.bindingsRestored) context after := by
  have before : context.InBalance context.bindingMargin := ⟨collects, bindable, rfl⟩
  constructor
  · intro machine phase starts reached
    exact before.growth ((lasting_inBalance _).starts starts reached before)
  · intro fuel result after returned
    have called : context.call fuel callee arguments = some (result, after) := by
      obtain called | ⟨address, rfl, invoked⟩ := returned
      · exact called
      · rwa [invoke_eq_call] at invoked
    have balance := before.growth ((lasting_inBalance _).call called before)
    have depth : growth (·.memory.env.bindingDepth) context after = 0 := by
      have same := congrArg Array.size (keeps_call called).1.bindings
      simp only [growth, bindingDepth, same, Int.sub_self]
    refine ⟨balance, ?_⟩
    rw [depth] at balance
    omega

/-- A context with a function that binds its parameter, and a second symbol around adding
one to it. -/
def bindingTwice : Context where
  memory.heap.functions :=
    ⟨#[⟨.dynamic { required := [⟨"x"⟩] }, #[8, 25, 8, 84, 41, 135],
      #[.symbol ⟨"x"⟩, .symbol ⟨"y"⟩], 2, none, none⟩]⟩

/-- The names in the example can be bound. -/
theorem bindable_bindingTwice : bindingTwice.memory.heap.Bindable := by
  refine Heap.bindable_of_forall_mem fun function isIn => ?_
  obtain rfl := Array.mem_singleton.mp isIn
  intro name isIn
  obtain rfl := List.mem_singleton.mp isIn
  decide

/-- Both bindings are counted as undone as well, when the function fails between them. -/
theorem bindingTwice_in_balance_after_failure :
    ∃ failure after,
      bindingTwice.call 10 (.function 0) [.nil] = some (.error failure, after) ∧
      after.statistics.bindingsPushed = 2 ∧ after.statistics.bindingsRestored = 2 := by
  have fails : (bindingTwice.call 10 (.function 0) [.nil]).any
      (fun ended => !ended.1.isOk && ended.2.statistics.bindingsPushed == 2) = true := by
    decide +kernel
  rcases called : bindingTwice.call 10 (.function 0) [.nil] with _ | ⟨failure | value, after⟩
  · simp [called] at fails
  · have pushed : after.statistics.bindingsPushed = 2 := by
      simp only [called, Option.any_some, Bool.and_eq_true, beq_iff_eq] at fails
      exact fails.2
    obtain ⟨-, grown⟩ := (bindingTwice.bindings_counted_in_balance rfl bindable_bindingTwice
      (.function 0) [.nil]).2 10 (.error failure) after (.inl called)
    refine ⟨failure, after, rfl, pushed, ?_⟩
    have started : bindingTwice.statistics.bindingsPushed = 0 ∧
        bindingTwice.statistics.bindingsRestored = 0 := ⟨rfl, rfl⟩
    dsimp only [growth] at grown
    omega
  · simp [called, Except.isOk, Except.toBool] at fails

end Context

end ByteLisp
