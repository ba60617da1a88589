import ByteLisp.Proofs.Unwinding

/-!
# The machine and the recursive evaluator

The machine keeps the activations that wait in a list. `Evaluator.evaluate` has no such
list: a call instruction evaluates the function that it calls by a recursive call, and a
counter of the levels of nesting takes the place of the length of the list.
`Evaluator.run_iff_evaluate` says that both come to the same end.
-/

namespace ByteLisp

open Machine

namespace Evaluator

/-- Ends an activation, so that `level` activations are left. -/
def leave (level : Nat) (context : Context) (base highWater : Nat) (failed : Bool) : Context :=
  let restored := context.memory.env.bindingDepth - base
  let context : Context :=
    { context with
      memory.env := context.memory.env.undoMany restored
      callDepth := level }
  context.count (·.recordExit restored highWater failed)

/-- Applies a value at a level of nesting. A compiled function is evaluated one level
deeper, within the limit. -/
def apply (evaluate : Nat → Context → Activation → Option (Result × Context)) (level : Nat)
    (context : Context) (callee : Value) (arguments : List Value) : Option (Result × Context) :=
  let context := context.count Statistics.recordCall
  match context.memory.env.indirectFunction callee with
  | .error fault => some (.error ⟨fault, []⟩, context)
  | .ok (.function address) =>
    if level < context.settings.maxCallDepth then
      let function := context.memory.heap.function address
      let base := context.memory.env.bindingDepth
      match Calling.prepare callee function arguments context.memory with
      | (.ok (stack, bound), memory) =>
        let context := { context with memory, callDepth := level + 1 }.count
          (·.recordActivation function.parameters.convention bound (level + 1))
        evaluate (level + 1) context { function, stack, base }
      | (.error fault, memory) =>
        some (.error ⟨fault, []⟩, leave level { context with memory } base 0 true)
    else
      some (.error ⟨.excessiveNesting context.settings.maxCallDepth, []⟩, context)
  | .ok (.primitive primitive) =>
    match (context.count Statistics.recordPrimitive).perform (primitive.call arguments) with
    | (.ok value, context) => some (.ok value, context)
    | (.error fault, context) => some (.error ⟨fault, []⟩, context)
  | .ok other => some (.error ⟨.invalidFunction other, []⟩, context)

/-- Evaluates an activation to its end, `level` being the number of live activations. -/
def evaluate : Nat → Nat → Context → Activation → Option (Result × Context)
  | 0, _, _, _ => none
  | fuel + 1, level, context, activation =>
    match activation.step context with
    | (.ok .next, context, activation) | (.ok (.jump _), context, activation) =>
      evaluate fuel level context activation
    | (.ok (.call callee arguments), context, activation) =>
      match apply (evaluate fuel) level context callee arguments with
      | none => none
      | some (result, context) =>
        match activation.receive result with
        | .ok activation => evaluate fuel level context activation
        | .error failure =>
          some (.error failure,
            leave (level - 1) context activation.base activation.stack.highWater true)
    | (.ok (.leave value), context, activation) =>
      some (.ok value, leave (level - 1) context activation.base activation.stack.highWater false)
    | (.error failure, context, activation) =>
      some (.error failure,
        leave (level - 1) context activation.base activation.stack.highWater true)

/-- Leaving from the level below is what the machine does at the end of an activation. -/
theorem leave_eq_exit (context : Context) (base highWater : Nat) (failed : Bool) :
    leave (context.callDepth - 1) context base highWater failed =
      context.exit base highWater failed :=
  rfl

/-- Where the level is the number of live activations, a value is applied as the machine
dispatches it. -/
theorem apply_eq_dispatch (evaluate : Nat → Context → Activation → Option (Result × Context))
    (context : Context) (callee : Value) (arguments : List Value) :
    apply evaluate context.callDepth context callee arguments =
      match context.dispatch callee arguments with
      | (.ok (.value value), after) => some (.ok value, after)
      | (.ok (.activation activation), after) => evaluate after.callDepth after activation
      | (.error fault, after) => some (.error ⟨fault, []⟩, after) := by
  obtain ⟨memory, settings, statistics, trace, callDepth, traced⟩ := context
  cases resolved : memory.env.indirectFunction callee with
  | error fault => simp only [apply, Context.dispatch, Context.count, resolved]
  | ok value =>
      cases value with
      | function address =>
          by_cases room : callDepth < settings.maxCallDepth
          · rcases prepared : Calling.prepare callee (memory.heap.function address) arguments
              memory with ⟨fault | ⟨stack, bound⟩, left⟩
            all_goals
              simp only [apply, Context.dispatch, Context.count, resolved, Context.activate,
                Context.enter, room, if_true, Context.begin, Context.perform, prepared]
              rfl
          · simp only [apply, Context.dispatch, Context.count, resolved, Context.activate,
              Context.enter, room, if_false]
      | primitive primitive =>
          rcases called : primitive.call arguments memory with ⟨fault | value, left⟩ <;>
            simp only [apply, Context.dispatch, Context.count, resolved, Context.perform, called]
      | _ => simp only [apply, Context.dispatch, Context.count, resolved]

/-- An evaluator that knows more gives the same results. -/
theorem apply_mono {weak strong : Nat → Context → Activation → Option (Result × Context)}
    (knows : ∀ {level context activation outcome}, weak level context activation = some outcome →
      strong level context activation = some outcome)
    {level : Nat} {context : Context} {callee : Value} {arguments : List Value}
    {outcome : Result × Context}
    (applied : apply weak level context callee arguments = some outcome) :
    apply strong level context callee arguments = some outcome := by
  unfold apply at applied ⊢
  dsimp only at applied ⊢
  split at applied
  · exact applied
  · split at applied
    · rename_i room
      rw [if_pos room]
      split at applied
      · exact knows applied
      · exact applied
    · rename_i full
      rw [if_neg full]
      exact applied
  · exact applied
  · exact applied

/-- An evaluation that is done stays done with one more step. -/
theorem evaluate_succ {fuel level : Nat} {context : Context} {activation : Activation}
    {outcome : Result × Context} (ran : evaluate fuel level context activation = some outcome) :
    evaluate (fuel + 1) level context activation = some outcome := by
  induction fuel generalizing level context activation outcome with
  | zero => cases ran
  | succ fuel ih =>
      rw [evaluate] at ran ⊢
      split at ran
      · exact ih ran
      · exact ih ran
      · split at ran
        · cases ran
        · rename_i applied
          rw [apply_mono ih applied]
          dsimp only
          split at ran
          · exact ih ran
          · exact ran
      · exact ran
      · exact ran

/-- It stays done with any number of further steps. -/
theorem evaluate_mono {fuel more level : Nat} {context : Context} {activation : Activation}
    {outcome : Result × Context} (enough : fuel ≤ more)
    (ran : evaluate fuel level context activation = some outcome) :
    evaluate more level context activation = some outcome := by
  induction enough with
  | refl => exact ran
  | step _ ih => exact evaluate_succ ih

/-! ## The machine follows the evaluator -/

/-- The evaluator ends an activation with as many live activations as the machine, and
the machine reaches the same result, whatever activations wait for it. -/
def Agrees (evaluate : Nat → Context → Activation → Option (Result × Context)) : Prop :=
  ∀ {context after : Context} {activation : Activation} {result : Result},
    evaluate context.callDepth context activation = some (result, after) →
    after.callDepth = context.callDepth - 1 ∧
      ∀ callers, Phase.Reaches (.running ⟨context, activation, callers⟩)
        (.delivering after callers result)

/-- The machine reaches what a call instruction gives. -/
theorem reaches_of_apply {evaluate : Nat → Context → Activation → Option (Result × Context)}
    (agrees : Agrees evaluate) {context middle after : Context} {activation moved : Activation}
    {callee : Value} {arguments : List Value} {result : Result}
    (stepped : activation.step context = (.ok (.call callee arguments), middle, moved))
    (applied : apply evaluate middle.callDepth middle callee arguments = some (result, after)) :
    after.callDepth = middle.callDepth ∧
      ∀ callers, Phase.Reaches (.running ⟨context, activation, callers⟩)
        (.delivering after (moved :: callers) result) := by
  rw [apply_eq_dispatch] at applied
  rcases dispatched : middle.dispatch callee arguments with ⟨fault | value | inner, left⟩
  · rw [dispatched] at applied
    cases applied
    obtain ⟨_, same⟩ := Context.dispatch_done (by simp) dispatched
    exact ⟨same.callDepth, fun callers => .single (.refuse stepped dispatched)⟩
  · rw [dispatched] at applied
    cases applied
    obtain ⟨_, same⟩ := Context.dispatch_done (by simp) dispatched
    exact ⟨same.callDepth, fun callers => .single (.answer stepped dispatched)⟩
  · rw [dispatched] at applied
    obtain ⟨_, _, _, deeper⟩ := Context.dispatch_activation dispatched
    obtain ⟨callDepth, reached⟩ := agrees applied
    refine ⟨by omega, fun callers => .head (.enter stepped dispatched) (reached _)⟩

/-- The evaluator agrees with the machine, for every number of steps. -/
theorem agrees_evaluate (fuel : Nat) : Agrees (evaluate fuel) := by
  induction fuel with
  | zero =>
      intro context after activation result ran
      cases ran
  | succ fuel ih =>
      intro context after activation result ran
      rcases stepped : activation.step context with ⟨failure | flow, middle, moved⟩
      all_goals
        have level := (Activation.sameLevel_step stepped).callDepth
        rw [evaluate, stepped, ← level] at ran
        rw [← level]
      · cases ran
        exact ⟨rfl, fun callers => .single (.fail stepped)⟩
      · cases flow with
        | next =>
            obtain ⟨callDepth, reached⟩ := ih ran
            exact ⟨callDepth, fun callers =>
              .head (.proceed stepped (.inl rfl)) (reached callers)⟩
        | jump target =>
            obtain ⟨callDepth, reached⟩ := ih ran
            exact ⟨callDepth, fun callers =>
              .head (.proceed stepped (.inr ⟨target, rfl⟩)) (reached callers)⟩
        | leave value =>
            cases ran
            exact ⟨rfl, fun callers => .single (.leave stepped)⟩
        | call callee arguments =>
            dsimp only at ran
            split at ran
            · cases ran
            · rename_i given left applied
              obtain ⟨same, reached⟩ := reaches_of_apply ih stepped applied
              rw [← same] at ran ⊢
              split at ran
              · rename_i resumed received
                obtain ⟨callDepth, further⟩ := ih ran
                exact ⟨callDepth, fun callers =>
                  (reached callers).trans (.head (.resume received) (further callers))⟩
              · rename_i failure received
                cases ran
                exact ⟨rfl, fun callers => (reached callers).tail (.unwind received)⟩

/-! ## The evaluator follows the machine -/

/-- By evaluation, the waiting activations come to a final result one after the other. -/
inductive Unwinds (final : Result) (after : Context) : Context → List Activation → Result → Prop
    where
  | done : Unwinds final after after [] final
  | resume {context middle : Context} {caller resumed : Activation} {callers : List Activation}
      {result given : Result} {fuel : Nat}
      (received : caller.receive result = .ok resumed)
      (ran : evaluate fuel context.callDepth context resumed = some (given, middle))
      (rest : Unwinds final after middle callers given) :
      Unwinds final after context (caller :: callers) result
  | unwind {context : Context} {caller : Activation} {callers : List Activation}
      {result : Result} {failure : Failure}
      (received : caller.receive result = .error failure)
      (rest : Unwinds final after (context.exit caller.base caller.stack.highWater true) callers
        (.error failure)) :
      Unwinds final after context (caller :: callers) result

/-- By evaluation, the machine comes to a final result. -/
def Finishes (final : Result) (after : Context) : Phase → Prop
  | .running ⟨context, activation, callers⟩ => ∃ fuel result middle,
      evaluate fuel context.callDepth context activation = some (result, middle) ∧
        Unwinds final after middle callers result
  | .delivering context waiting result => Unwinds final after context waiting result

variable {final : Result} {last : Context}

/-- An activation that makes a call, once the call has been evaluated. -/
theorem finishes_call (fuel : Nat) {context middle after : Context}
    {activation moved : Activation} {callers : List Activation} {callee : Value}
    {arguments : List Value} {result : Result}
    (stepped : activation.step context = (.ok (.call callee arguments), middle, moved))
    (applied : apply (evaluate fuel) middle.callDepth middle callee arguments =
      some (result, after))
    (unwinds : Unwinds final last after (moved :: callers) result) :
    Finishes final last (.running ⟨context, activation, callers⟩) := by
  have level := (Activation.sameLevel_step stepped).callDepth
  have same := (reaches_of_apply (agrees_evaluate fuel) stepped applied).1
  rw [level] at applied same
  cases unwinds with
  | @resume _ left _ _ _ _ given more received ran rest =>
      -- Both evaluations are repeated with enough fuel for either.
      have called := apply_mono (evaluate_mono (Nat.le_max_left fuel more)) applied
      have resumed := evaluate_mono (Nat.le_max_right fuel more) ran
      refine ⟨max fuel more + 1, given, left, ?_, rest⟩
      rw [evaluate, stepped]
      simp only [called, received]
      rwa [← same]
  | unwind received rest =>
      refine ⟨fuel + 1, _, _, ?_, rest⟩
      rw [evaluate, stepped]
      simp only [applied, received]
      rw [← same, leave_eq_exit]

/-- A transition of the machine is a part of the evaluation. -/
theorem finishes_of_next {before after : Phase} (next : Phase.Next before after)
    (finishes : Finishes final last after) : Finishes final last before := by
  cases next with
  | proceed stepped onward =>
      obtain ⟨fuel, result, middle, ran, rest⟩ := finishes
      have level := (Activation.sameLevel_step stepped).callDepth
      refine ⟨fuel + 1, result, middle, ?_, rest⟩
      rw [level] at ran
      obtain rfl | ⟨target, rfl⟩ := onward <;> rw [evaluate, stepped] <;> exact ran
  | enter stepped dispatched =>
      obtain ⟨fuel, result, middle, ran, rest⟩ := finishes
      exact finishes_call fuel stepped (by rw [apply_eq_dispatch, dispatched]; exact ran) rest
  | answer stepped dispatched | refuse stepped dispatched =>
      exact finishes_call 0 stepped (by rw [apply_eq_dispatch, dispatched]) finishes
  | leave stepped | fail stepped =>
      have level := (Activation.sameLevel_step stepped).callDepth
      refine ⟨1, _, _, ?_, finishes⟩
      rw [evaluate, stepped, ← level]
      rfl
  | resume received =>
      obtain ⟨fuel, result, middle, ran, rest⟩ := finishes
      exact .resume received ran rest
  | unwind received => exact .unwind received finishes

/-- A run that ends is one that the evaluator finishes. -/
theorem finishes_of_reaches {phase : Phase}
    (reached : Phase.Reaches phase (.delivering last [] final)) : Finishes final last phase := by
  induction reached using Relation.ReflTransGen.head_induction_on with
  | refl => exact .done
  | head next _ ih => exact finishes_of_next next ih

/-- The machine and the recursive evaluator come to the same end: the same value or the
same failure with all its sites, and the same context. -/
theorem run_iff_evaluate (context : Context) (activation : Activation) (result : Result)
    (after : Context) :
    (∃ fuel, Machine.run fuel { context, activation } = some (result, after)) ↔
      ∃ fuel, evaluate fuel context.callDepth context activation = some (result, after) := by
  rw [exists_run_iff_reaches]
  constructor
  · intro reached
    obtain ⟨fuel, given, middle, ran, unwinds⟩ := finishes_of_reaches reached
    cases unwinds with
    | done => exact ⟨fuel, ran⟩
  · rintro ⟨fuel, ran⟩
    exact (agrees_evaluate fuel ran).2 []

end Evaluator

end ByteLisp
