import ByteLisp.Proofs.Diagnostics
import ByteLisp.Proofs.InstructionParts

/-!
# Statistics in parts

All that a machine does to its statistics is to add to them. A machine that starts out with
further statistics therefore does the same and ends with as much more, and statistics that a
host takes from time to time and adds up come to the same as those that it leaves alone until
the end: `Context.statistics_split_without_loss`.
-/

namespace ByteLisp

namespace Statistics

/-- Statistics are added in any grouping: sums and maxima are. -/
theorem add_assoc (first second third : Statistics) :
    (first.add second).add third = first.add (second.add third) := by
  simp only [add, Nat.add_assoc, Nat.max_assoc]

@[simp] theorem add_none (stats : Statistics) : stats.add {} = stats := by
  simp [add]

@[simp] theorem none_add (stats : Statistics) : ({} : Statistics).add stats = stats := by
  simp [add]

/-- The update counts on top of what has been counted before. -/
def Cumulative (update : Statistics → Statistics) : Prop :=
  ∀ total stats : Statistics, update (total.add stats) = total.add (update stats)

/-- What amounts to adding something can be done before or after other additions. -/
theorem cumulative_of_add {update : Statistics → Statistics} (counted : Statistics)
    (adds : ∀ stats, update stats = stats.add counted) : Cumulative update := by
  intro total stats
  rw [adds, adds, add_assoc]

/-- An instruction adds one to its counter. -/
theorem cumulative_recordInstruction (opcode : Opcode) : Cumulative (·.recordInstruction opcode) :=
  cumulative_of_add (recordInstruction {} opcode) fun stats => by
    unfold recordInstruction
    dsimp only
    split <;> simp [add]

/-- A call adds one. -/
theorem cumulative_recordCall : Cumulative recordCall :=
  cumulative_of_add { calls := 1 } fun stats => by simp [recordCall, add]

/-- A call of a built-in function adds one. -/
theorem cumulative_recordPrimitive : Cumulative recordPrimitive :=
  cumulative_of_add { primitiveCalls := 1 } fun stats => by simp [recordPrimitive, add]

/-- Bindings that are made are added. -/
theorem cumulative_recordBound (count : Nat) : Cumulative (·.recordBound count) :=
  cumulative_of_add { bindingsPushed := count } fun stats => by simp [recordBound, add]

/-- Bindings that are undone are added. -/
theorem cumulative_recordRestored (count : Nat) : Cumulative (·.recordRestored count) :=
  cumulative_of_add { bindingsRestored := count } fun stats => by simp [recordRestored, add]

/-- An activation adds one, its bindings, and its depth to the greatest. -/
theorem cumulative_recordActivation (convention : Convention) (bound callDepth : Nat) :
    Cumulative (·.recordActivation convention bound callDepth) :=
  cumulative_of_add (recordActivation {} convention bound callDepth) fun stats => by
    cases convention <;> simp [recordActivation, recordBound, add]

/-- Its end adds what it restores, and its operand stack to the greatest. -/
theorem cumulative_recordExit (restored highWater : Nat) (failed : Bool) :
    Cumulative (·.recordExit restored highWater failed) :=
  cumulative_of_add (recordExit {} restored highWater failed) fun stats => by
    simp [recordExit, recordRestored, add]

end Statistics

open Statistics

/-! ## Starting with further statistics -/

namespace Context

/-- The context with further statistics in front of its own. -/
def credit (total : Statistics) (context : Context) : Context :=
  { context with statistics := total.add context.statistics }

variable (total : Statistics) (context : Context)

/-- What is counted on top of earlier statistics is added to them. -/
theorem count_credit {update : Statistics → Statistics} (cumulative : Cumulative update) :
    (context.credit total).count update = (context.count update).credit total := by
  obtain ⟨memory, settings, statistics, trace, callDepth, traced⟩ := context
  cases collects : settings.collectStatistics with
  | false => simp [count, credit, collects]
  | true => simp [count, credit, collects, cumulative total statistics]

/-- Actions do not look at the statistics. -/
theorem perform_credit {α : Type} (action : Action α) :
    (context.credit total).perform action = (context.perform action).map id (credit total) :=
  rfl

/-- Neither does recording an instruction, which also goes into the trace. -/
theorem recordInstruction_credit (pc : Nat) (instruction : Instruction) (stackDepth : Nat) :
    (context.credit total).recordInstruction pc instruction stackDepth =
      (context.recordInstruction pc instruction stackDepth).credit total := by
  rw [recordInstruction_eq, count_credit total context (cumulative_recordInstruction _),
    recordInstruction_eq]
  rfl

/-- Neither does the end of an activation. -/
theorem exit_credit (base highWater : Nat) (failed : Bool) :
    (context.credit total).exit base highWater failed =
      (context.exit base highWater failed).credit total := by
  obtain ⟨⟨heap, env⟩, settings, statistics, trace, callDepth, traced⟩ := context
  exact count_credit total ⟨⟨heap, (env.unbindTo base).2⟩, settings, statistics, trace,
    callDepth - 1, traced⟩ (cumulative_recordExit _ highWater failed)

/-- Neither does the start of one. -/
theorem activate_credit (callee : Value) (function : Function) (arguments : List Value) :
    (context.credit total).activate callee function arguments =
      (context.activate callee function arguments).map id (credit total) := by
  obtain ⟨memory, settings, statistics, trace, callDepth, traced⟩ := context
  by_cases room : callDepth < settings.maxCallDepth
  · simp only [activate, enter, credit, room, if_true, begin, perform]
    rcases Calling.prepare callee function arguments memory with ⟨fault | ⟨stack, bound⟩, left⟩
    · exact congrArg (Prod.mk _) (exit_credit total ⟨left, settings, statistics, trace,
        callDepth + 1, traced⟩ _ _ _)
    · exact congrArg (Prod.mk _) (count_credit total ⟨left, settings, statistics, trace,
        callDepth + 1, traced⟩ (cumulative_recordActivation _ _ _))
  · simp only [activate, enter, credit, room, if_false]
    rfl

/-- Neither does a call that is answered at once, or begun. -/
theorem dispatch_credit (callee : Value) (arguments : List Value) :
    (context.credit total).dispatch callee arguments =
      (context.dispatch callee arguments).map id (credit total) := by
  unfold dispatch
  dsimp only
  rw [count_credit total context cumulative_recordCall]
  generalize context.count recordCall = called
  have memory : (called.credit total).memory = called.memory := rfl
  rw [memory]
  rcases called.memory.env.indirectFunction callee with fault | found
  · rfl
  · cases found with
    | function address =>
        dsimp only
        rw [activate_credit]
        rcases called.activate callee (called.memory.heap.function address) arguments with
          ⟨fault | activation, after⟩ <;> rfl
    | primitive primitive =>
        dsimp only
        rw [count_credit total called cumulative_recordPrimitive, perform_credit]
        rcases (called.count recordPrimitive).perform (primitive.call arguments) with
          ⟨fault | value, after⟩ <;> rfl
    | nil | int | float | symbol | cons | vector | string => rfl

end Context

/-- A running activation whose context has further statistics. -/
def Running.credit (total : Statistics) (running : Running) : Running :=
  ⟨running.context.credit total, running.stack⟩

namespace ExecM

variable {α β : Type}

/-- The program does the same with further statistics in front, and leaves them in front. -/
def Cumulative (program : ExecM α) : Prop :=
  ∀ total running, program (running.credit total) = (program running).map id (.credit total)

/-- Programs in a row do not look at the statistics when none of them does. -/
theorem cumulative_bind {program : ExecM α} {rest : α → ExecM β} (first : Cumulative program)
    (next : ∀ value, Cumulative (rest value)) : Cumulative (program >>= rest) := by
  intro total running
  rw [run_bind, run_bind, first]
  rcases program running with ⟨fault | value, after⟩
  · rfl
  · exact next value total after

/-- An action does not. -/
theorem cumulative_perform (action : Action α) : Cumulative (perform action) :=
  fun _ _ => rfl

/-- A count of a cumulative kind does not. -/
theorem cumulative_count {update : Statistics → Statistics} (cumulative : Statistics.Cumulative update) :
    Cumulative (count update) := by
  intro total running
  simp only [count, Running.credit, Context.count_credit total _ cumulative]
  rfl

/-- An action whose events are counted. -/
theorem cumulative_counted (action : Action α) {update : Statistics → Statistics}
    (cumulative : Statistics.Cumulative update) (value : β) :
    Cumulative (perform action >>= fun _ => count update >>= fun _ => pure value) :=
  cumulative_bind (cumulative_perform action) fun _ =>
    cumulative_bind (cumulative_count cumulative) fun _ _ _ => rfl

/-- What the parts of instructions do not look at, no instruction does. -/
theorem Composed.cumulative {program : ExecM α} (composed : Composed program) :
    Cumulative program := by
  induction composed with
  | pure | onStack => exact fun _ _ => rfl
  | bind _ _ first next => exact cumulative_bind first next
  | steady => exact cumulative_perform _
  | binding => exact cumulative_counted _ (cumulative_recordBound 1) _
  | unbinding base requested =>
      exact cumulative_counted _ (cumulative_recordRestored requested) _

end ExecM

/-- A step does the same on top of earlier statistics. -/
theorem Activation.step_credit (total : Statistics) (context : Context) (activation : Activation) :
    activation.step (context.credit total) =
      (activation.step context).map id (Prod.map (.credit total) id) := by
  obtain ⟨function, stack, pc, current, base⟩ := activation
  simp only [step]
  split
  · rfl
  · split
    · rfl
    · rename_i instruction next decoded
      have executed := (Execute.composed_operation function.constants base instruction.opcode
        instruction.operand).cumulative total
        ⟨context.recordInstruction pc instruction stack.depth, stack⟩
      simp only [Running.credit, ← Context.recordInstruction_credit] at executed
      rw [Execute.instruction, executed]
      rcases Execute.operation function.constants base instruction.opcode instruction.operand
        ⟨context.recordInstruction pc instruction stack.depth, stack⟩ with ⟨fault | flow, left⟩
      · rfl
      · cases flow with
        | next | call | leave => rfl
        | jump target =>
            simp only [Prod.map_apply, id_eq, Running.credit]
            split
            · rfl
            · rfl

namespace Machine

/-- A state whose context has further statistics. -/
def State.credit (total : Statistics) : State → State
  | .running machine => .running { machine with context := machine.context.credit total }
  | .done context result => .done (context.credit total) result

/-- Handing on a result does the same on top of earlier statistics. -/
theorem resume_credit (total : Statistics) (context : Context) (waiting : List Activation)
    (result : Result) :
    resume (context.credit total) waiting result = (resume context waiting result).credit total := by
  induction waiting generalizing context result with
  | nil => rfl
  | cons caller callers ih =>
      simp only [resume]
      split
      · rfl
      · rw [Context.exit_credit, ih]

/-- So does a step of the machine. -/
theorem step_credit (total : Statistics) (machine : Machine) :
    step { machine with context := machine.context.credit total } = machine.step.credit total := by
  obtain ⟨context, activation, callers⟩ := machine
  simp only [step, Activation.step_credit]
  rcases activation.step context with ⟨failure | flow, after, moved⟩
  · simp only [Prod.map_apply, id_eq]
    rw [Context.finish, Context.exit_credit, resume_credit]
    rfl
  · cases flow with
    | next | jump => rfl
    | leave value =>
        simp only [Prod.map_apply, id_eq]
        rw [Context.finish, Context.exit_credit, resume_credit]
        rfl
    | call callee arguments =>
        simp only [Prod.map_apply, id_eq]
        rw [Context.dispatch_credit]
        rcases after.dispatch callee arguments with ⟨fault | value | inner, called⟩
        · exact resume_credit _ _ _ _
        · exact resume_credit _ _ _ _
        · rfl

/-- So does a run. -/
theorem run_credit (total : Statistics) (fuel : Nat) (machine : Machine) :
    run fuel { machine with context := machine.context.credit total } =
      (run fuel machine).map (Prod.map id (.credit total)) := by
  induction fuel generalizing machine with
  | zero => rfl
  | succ fuel ih =>
      simp only [run, step_credit]
      cases machine.step with
      | running moved => exact ih moved
      | done context result => rfl

end Machine

namespace Context

/-- So does a call. -/
theorem call_credit (total : Statistics) (context : Context) (fuel : Nat) (callee : Value)
    (arguments : List Value) :
    (context.credit total).call fuel callee arguments =
      (context.call fuel callee arguments).map (Prod.map id (credit total)) := by
  unfold call
  rw [dispatch_credit]
  rcases context.dispatch callee arguments with ⟨fault | value | activation, after⟩
  · rfl
  · rfl
  · exact Machine.run_credit total fuel { context := after, activation }

/-- So does a request. -/
theorem answer_credit (total : Statistics) (context : Context) (fuel : Nat) (request : Request) :
    (context.credit total).answer fuel request =
      (context.answer fuel request).map (Prod.map id (credit total)) := by
  cases request with
  | call callee arguments => exact call_credit total context fuel callee arguments
  | invoke address arguments =>
      simp only [answer, invoke_eq_call]
      exact call_credit total context fuel (.function address) arguments

/-! ## Taking statistics between requests -/

/-- The results of requests and the context after them, unless one of them takes more than
`fuel` steps. -/
def serve (fuel : Nat) : Context → List Request → Option (List Result × Context)
  | context, [] => some ([], context)
  | context, request :: requests =>
    match context.answer fuel request with
    | some (result, after) => (serve fuel after requests).map (Prod.map (result :: ·) id)
    | none => none

/-- What a host does that keeps statistics of its own. -/
inductive Errand where
  | ask (request : Request)
  /-- It takes the statistics and adds them to its own. -/
  | take

/-- The request, where there is one. -/
def Errand.request? : Errand → Option Request
  | .ask request => some request
  | .take => none

/-- The results of the requests, with the statistics of the host and the context after them. -/
def attend (fuel : Nat) :
    Statistics → Context → List Errand → Option (List Result × Statistics × Context)
  | total, context, [] => some ([], total, context)
  | total, context, .ask request :: errands =>
    match context.answer fuel request with
    | some (result, after) => (attend fuel total after errands).map (Prod.map (result :: ·) id)
    | none => none
  | total, context, .take :: errands =>
    let (taken, after) := context.takeStatistics
    attend fuel (total.add taken) after errands

/-- What the host has taken might as well have been there from the start. -/
theorem attend_eq_serve (fuel : Nat) (total : Statistics) (context : Context)
    (errands : List Errand) :
    (attend fuel total context errands).map
        (fun (results, kept, last) =>
          (results, kept.add last.takeStatistics.1, last.takeStatistics.2)) =
      (serve fuel (context.credit total) (errands.filterMap Errand.request?)).map
        fun (results, last) => (results, last.takeStatistics) := by
  induction errands generalizing total context with
  | nil => rfl
  | cons errand errands ih =>
      cases errand with
      | ask request =>
          simp only [attend, List.filterMap_cons, Errand.request?, serve, answer_credit]
          rcases context.answer fuel request with _ | ⟨result, after⟩
          · rfl
          · have rest := congrArg (Option.map (Prod.map (result :: ·) id)) (ih total after)
            rw [Option.map_map, Option.map_map] at rest
            simp only [Option.map_some, Prod.map_apply, id_eq, Option.map_map]
            exact rest
      | take =>
          -- What is taken moves from the context to the host, and the sum stays the same.
          have moved : context.takeStatistics.2.credit (total.add context.takeStatistics.1) =
              context.credit total := by
            simp [credit, takeStatistics]
          rw [attend, ih, moved]
          rfl

/-- Statistics that a host takes between requests, at whatever points, and adds up from none,
come after a last take to the statistics that the same requests show when nothing is ever taken.
The results are the same, and so is the context but for its statistics, of which nothing is left
after the last take. -/
theorem statistics_split_without_loss (fuel : Nat) (context : Context) (errands : List Errand) :
    (attend fuel {} context errands).map
        (fun (results, kept, last) =>
          (results, kept.add last.takeStatistics.1, last.takeStatistics.2)) =
      (serve fuel context (errands.filterMap Errand.request?)).map
        fun (results, last) => (results, last.statistics, { last with statistics := {} }) := by
  have none : context.credit {} = context := by simp [credit]
  rw [attend_eq_serve, none]
  rfl

/-- A request that succeeds, one that fails and one to a built-in function, with the statistics
taken after the first two. -/
def errandsWithTakes : List Errand :=
  [.ask (.call (.function 0) [.int 1]), .take, .ask (.invoke 0 [.nil]), .take,
    .ask (.call (.primitive .car) [.nil])]

/-- The statistics of the three requests. -/
def statisticsOfErrands : Statistics where
  instructions := 5
  variableLookups := 2
  calls := 3
  dynamicActivations := 2
  primitiveCalls := 1
  bindingsPushed := 2
  bindingsRestored := 2
  failedActivations := 1
  maxOperandDepth := 1
  maxCallDepth := 1

/-- The two takes and the last one come to the statistics of all three requests, and nothing is
left behind. -/
theorem errandsWithTakes_add_up :
    (attend 10 {} (start incrementing {}) errandsWithTakes).map
        (fun (_, kept, last) => (kept.calls, kept.add last.takeStatistics.1,
          last.takeStatistics.2.statistics)) =
      some (2, statisticsOfErrands, {}) := by
  have split := statistics_split_without_loss 10 (start incrementing {}) errandsWithTakes
  have shown : (serve 10 (start incrementing {})
      (errandsWithTakes.filterMap Errand.request?)).map (fun (_, last) => last.statistics) =
        some statisticsOfErrands := by decide +kernel
  have taken : (attend 10 {} (start incrementing {}) errandsWithTakes).map
      (fun (_, kept, _) => kept.calls) = some 2 := by decide +kernel
  obtain ⟨⟨results, kept, last⟩, attended, calls⟩ := Option.map_eq_some_iff.mp taken
  obtain ⟨⟨answers, final⟩, served, statistics⟩ := Option.map_eq_some_iff.mp shown
  rw [attended, served] at split
  obtain ⟨-, both⟩ := Prod.mk.inj (Option.some.inj split)
  obtain ⟨total, left⟩ := Prod.mk.inj both
  dsimp only at calls statistics
  rw [attended]
  simp only [Option.map_some, calls, total, left, statistics]

end Context

end ByteLisp
