import ByteLisp.Proofs.CodeSafety
import ByteLisp.Proofs.FailureSites

/-!
# What calls come to

A call that never jumps back comes to an end. Nearly always the host then gets a value or an
error. The exception is a program that asks for a vector of more elements than any memory can
hold: nothing checks for this, and the machine stops with all that runs on it. No other
instruction or built-in function stops the machine, so that the exception can be told exactly.
-/

namespace ByteLisp

open Machine

/-- Whether the host gets the result: a value, or an error. -/
def Result.isReported : Result → Bool
  | .ok _ => true
  | .error failure => !failure.cause.isFatal

/-- A failure is not reported exactly when its cause stops the machine. -/
theorem Result.isReported_error {failure : Failure} :
    isReported (.error failure) = false ↔ failure.cause.isFatal = true := by
  simp [isReported]

/-- No step of an activation stops the machine by itself. -/
theorem Activation.isFatal_of_step {activation moved : Activation} {context after : Context}
    {failure : Failure} (ran : activation.step context = (.error failure, after, moved)) :
    failure.cause.isFatal = false := by
  cases stepped ran with
  | ended | undecodable | astray => rfl
  | failed decoded executed =>
      exact Fault.isFatal_of_ofExecution ((Execute.answers_operation _ _ _ _).fault executed)

/-- A call that stops the machine at once is one for a vector that no memory can hold. -/
theorem Context.oversized_of_dispatch {context after : Context} {callee : Value}
    {arguments : List Value} {fault : Fault}
    (failed : context.dispatch callee arguments = (.error fault, after))
    (fatal : fault.isFatal = true) : context.Oversized callee arguments := by
  obtain ofExecution | ⟨_, oversized⟩ := ofExecution_or_oversized failed
  · rw [Fault.isFatal_of_ofExecution ofExecution] at fatal
    cases fatal
  · exact oversized

namespace Machine.Phase

/-- The machine is about to call for a vector that no memory can hold. -/
inductive Oversized : Phase → Prop where
  | call {context middle : Context} {activation moved : Activation} {callers : List Activation}
      {callee : Value} {arguments : List Value}
      (stepped : activation.step context = (.ok (.call callee arguments), middle, moved))
      (oversized : middle.Oversized callee arguments) :
      Oversized (.running ⟨context, activation, callers⟩)

/-- A fault that stops the machine arises in a call for such a vector. -/
theorem oversized_of_raises {phase : Phase} {fault : Fault} (raises : phase.Raises fault)
    (fatal : fault.isFatal = true) : phase.Oversized := by
  cases raises with
  | instruction stepped =>
      rw [Activation.isFatal_of_step stepped] at fatal
      cases fatal
  | call stepped dispatched => exact .call stepped (Context.oversized_of_dispatch dispatched fatal)
  | delivery received =>
      rw [Fault.isFatal_of_ofExecution (Activation.ofExecution_of_receive received)] at fatal
      cases fatal

end Machine.Phase

namespace Context

variable {context after : Context} {callee : Value} {arguments : List Value} {result : Result}

/-- A call for a vector that no memory can hold is refused, and stops the machine. -/
theorem Oversized.dispatch (oversized : context.Oversized callee arguments) :
    ∃ fault after, context.dispatch callee arguments = (.error fault, after) ∧
      fault.isFatal = true := by
  obtain ⟨primitive, resolved, asked⟩ := oversized
  obtain ⟨fault, stopped, fatal⟩ := asked.isFatal context.memory
  refine ⟨fault, (context.count Statistics.recordCall).count Statistics.recordPrimitive, ?_, fatal⟩
  have performed : ((context.count Statistics.recordCall).count Statistics.recordPrimitive).perform
      (primitive.call arguments) =
        (.error fault, (context.count Statistics.recordCall).count Statistics.recordPrimitive) := by
    obtain ⟨memory, settings, statistics, trace, callDepth, traced⟩ := context
    simp only [count, perform, stopped]
  have called : (context.count Statistics.recordCall).memory = context.memory := rfl
  unfold Context.dispatch
  dsimp only
  rw [called, resolved]
  dsimp only
  rw [performed]

end Context

/-- From a call for such a vector on the machine only unwinds, and then it stops. -/
theorem Machine.Phase.Oversized.ends {phase : Phase} (oversized : phase.Oversized) :
    ∃ failure after, Phase.Reaches phase (.delivering after [] (.error failure)) ∧
      failure.cause.isFatal = true := by
  cases oversized with
  | @call _ _ _ moved callers _ _ stepped oversized =>
      obtain ⟨fault, middle, dispatched, fatal⟩ := oversized.dispatch
      obtain ⟨after, unwound, _⟩ := Phase.reaches_unwound middle (moved :: callers) fault []
      exact ⟨_, after, .head (.refuse stepped dispatched) unwound, fatal⟩

namespace Context

variable {context after : Context} {callee : Value} {arguments : List Value} {result : Result}

/-- The call, or the machine that it starts, asks at some point for a vector that no memory can
hold. -/
def ReachesOversized (context : Context) (callee : Value) (arguments : List Value) : Prop :=
  context.Oversized callee arguments ∨
    ∃ machine phase, context.Starts callee arguments machine ∧
      Phase.Reaches (.running machine) phase ∧ phase.Oversized

/-- A call whose end the host does not get to see has asked for such a vector. -/
theorem Returned.reachesOversized (returned : context.Returned callee arguments result after)
    (stopped : result.isReported = false) : context.ReachesOversized callee arguments := by
  cases returned with
  | answered dispatched => cases stopped
  | refused dispatched =>
      exact .inl (oversized_of_dispatch dispatched (Result.isReported_error.mp stopped))
  | ended dispatched reached =>
      cases result with
      | ok value => cases stopped
      | error failure =>
          obtain ⟨phase, earlier, raises⟩ := reached.raises
          have oversized := Phase.oversized_of_raises raises (Result.isReported_error.mp stopped)
          exact .inr ⟨_, phase, .call dispatched, earlier, oversized⟩

/-- A call that has asked for such a vector does not come to an end that the host gets to see. -/
theorem ReachesOversized.isReported (reaches : context.ReachesOversized callee arguments)
    (returned : context.Returned callee arguments result after) : result.isReported = false := by
  obtain oversized | ⟨machine, phase, starts, reached, oversized⟩ := reaches
  · obtain ⟨fault, left, refused, fatal⟩ := oversized.dispatch
    cases returned with
    | answered dispatched | ended dispatched =>
        rw [refused] at dispatched
        cases dispatched
    | refused dispatched =>
        rw [refused] at dispatched
        cases dispatched
        exact Result.isReported_error.mpr fatal
  · obtain ⟨activation, started, rfl, entered⟩ := starts.dispatched
    obtain ⟨failure, left, unwound, fatal⟩ := oversized.ends
    cases returned with
    | answered dispatched | refused dispatched =>
        rw [entered] at dispatched
        cases dispatched
    | ended dispatched ended =>
        rw [entered] at dispatched
        cases dispatched
        obtain ⟨rfl, _⟩ := Phase.end_unique ended (reached.trans unwound)
        exact Result.isReported_error.mpr fatal

/-- A call that never takes a jump to the place of the jump itself or to one before it comes to
an end: from some number of steps on the result is there and stays the same. The host gets it, as
a value or as an error, exactly when no vector was asked for that no memory can hold. This holds
for every limit of nesting, however functions call one another, and whatever functions the
program makes while it runs. -/
theorem call_ends_without_backward_jumps (context : Context) (callee : Value)
    (arguments : List Value)
    (forward : ∀ machine phase, context.Starts callee arguments machine →
      Phase.Reaches (.running machine) phase → ¬ phase.JumpsBack) :
    ∃ steps result after,
      (∀ fuel, steps ≤ fuel → context.call fuel callee arguments = some (result, after)) ∧
      (result.isReported = true ↔ ¬ context.ReachesOversized callee arguments) := by
  obtain ⟨steps, ⟨result, after⟩, called⟩ := exists_call_of_forward forward
  refine ⟨steps, result, after, fun fuel enough => call_mono called enough, ?_⟩
  have returned := Context.returned called
  constructor
  · intro reported reaches
    rw [reaches.isReported returned] at reported
    cases reported
  · intro never
    by_contra stopped
    exact never (returned.reachesOversized (Bool.eq_false_iff.mpr stopped))

/-- A context with two functions that call each other, and a limit of nesting. -/
def twoMutualFunctions : Context where
  memory.heap.functions :=
    ⟨#[⟨.lexical ⟨0, 0, false⟩, #[192, 32, 135], #[.function 1], 1, none, none⟩,
      ⟨.lexical ⟨0, 0, false⟩, #[192, 32, 135], #[.function 0], 1, none, none⟩]⟩
  settings.maxCallDepth := 3

/-- The two functions call each other no deeper than the limit, and the host gets an error. -/
theorem twoMutualFunctions_end :
    ∃ steps result after,
      (∀ fuel, steps ≤ fuel →
        twoMutualFunctions.call fuel (.function 0) [] = some (result, after)) ∧
      result.isReported = true ∧ ¬ twoMutualFunctions.ReachesOversized (.function 0) [] := by
  have ends : (twoMutualFunctions.call 20 (.function 0) []).map (·.1.isReported) = some true := by
    decide +kernel
  have forward : twoMutualFunctions.runsForward 20 (.function 0) [] = true := by decide +kernel
  obtain ⟨steps, result, after, returns, reported⟩ :=
    twoMutualFunctions.call_ends_without_backward_jumps (.function 0) []
      (forward_of_runsForward forward)
  obtain ⟨outcome, called, isReported⟩ := Option.map_eq_some_iff.mp ends
  have late := call_mono called (Nat.le_max_right steps 20)
  rw [returns _ (Nat.le_max_left steps 20)] at late
  cases late
  exact ⟨steps, result, after, returns, isReported, reported.mp isReported⟩

/-- A context with a function that asks for a vector of `2 ^ 62` elements and returns it. -/
def vastVector : Context where
  memory.heap.functions :=
    ⟨#[⟨.lexical ⟨0, 0, false⟩, #[192, 193, 194, 34, 135],
      #[.primitive .makeVector, .int 4611686018427387904, .nil], 3, none, none⟩]⟩

/-- The failure that comes of it, at the call instruction. -/
def vastVectorFailure : Failure :=
  ⟨.capacityExceeded 4611686018427387904, [⟨3, .executing .call⟩]⟩

/-- The function does not jump at all. Its call comes to an end, but the host gets neither a
value nor an error. -/
theorem vastVector_stops_the_machine :
    (∀ machine phase, vastVector.Starts (.function 0) [] machine →
      Phase.Reaches (.running machine) phase → ¬ phase.JumpsBack) ∧
    ∃ after,
      (∀ fuel, 4 ≤ fuel →
        vastVector.call fuel (.function 0) [] = some (.error vastVectorFailure, after)) ∧
      Result.isReported (.error vastVectorFailure) = false := by
  have forward : vastVector.runsForward 4 (.function 0) [] = true := by decide +kernel
  have fails : (vastVector.call 4 (.function 0) []).bind (fun outcome =>
      outcome.1.casesOn some fun _ => none) = some vastVectorFailure := by
    decide +kernel
  constructor
  · exact forward_of_runsForward forward
  · rcases called : vastVector.call 4 (.function 0) [] with _ | ⟨failure | value, after⟩
    · simp [called] at fails
    · rw [called] at fails
      cases Option.some.inj fails
      exact ⟨after, fun fuel enough => call_mono called enough, rfl⟩
    · simp [called] at fails

end Context

end ByteLisp
