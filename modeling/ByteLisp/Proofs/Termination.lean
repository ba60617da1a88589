import ByteLisp.Proofs.MachineInvariant

/-!
# Runs without backward jumps end

Between two jumps an activation only moves forward in its code, and a call goes one level
deeper, of which there are only as many as the settings allow. A run can therefore go on
forever only by jumping back. The argument is by induction on the levels of nesting that
are left, and within a level on how much of the code lies ahead: the result of a call comes
back to an activation that stands behind the call instruction.
-/

namespace ByteLisp

namespace Machine

/-- The next instruction is a jump that is taken, and goes to where it stands or to
somewhere before. -/
def jumpsBack (machine : Machine) : Bool :=
  match machine.activation.step machine.context with
  | (.ok (.jump target), _, _) => target ≤ machine.activation.pc
  | _ => false

namespace Phase

/-- The machine is about to jump back. -/
def JumpsBack : Phase → Prop
  | .running machine => machine.jumpsBack = true
  | .delivering _ _ _ => False

/-- No jump goes back from here on. -/
def Forward (phase : Phase) : Prop :=
  ∀ later, Reaches phase later → ¬ later.JumpsBack

variable {before after : Phase}

/-- A run that only goes forward still does so later on. -/
theorem Forward.of_reaches (forward : before.Forward) (reached : Reaches before after) :
    after.Forward :=
  fun later further => forward later (reached.trans further)

/-- It still does so after a step. -/
theorem Forward.of_next (forward : before.Forward) (next : Next before after) : after.Forward :=
  forward.of_reaches (.single next)

/-- The machine comes to a result for the activations in `callers`, with these settings and
this number of live activations. -/
def Settles (phase : Phase) (callers : List Activation) (settings : Settings)
    (callDepth : Nat) : Prop :=
  ∃ after result, Reaches phase (.delivering after callers result) ∧
    after.settings = settings ∧ after.callDepth = callDepth

variable {callers : List Activation} {settings : Settings} {callDepth : Nat}

/-- What settles later on settles. -/
theorem Settles.of_reaches (reached : Reaches before after)
    (settles : after.Settles callers settings callDepth) :
    before.Settles callers settings callDepth := by
  obtain ⟨last, result, further, level⟩ := settles
  exact ⟨last, result, reached.trans further, level⟩

/-- What settles after a step settles. -/
theorem Settles.of_next (next : Next before after)
    (settles : after.Settles callers settings callDepth) :
    before.Settles callers settings callDepth :=
  settles.of_reaches (.single next)

/-- A result that is handed to a waiting activation: the activation takes it, or fails. -/
theorem settles_delivery {context : Context} {caller : Activation} {result : Result}
    (taken : ∀ resumed, caller.receive result = .ok resumed →
      (running ⟨context, resumed, callers⟩).Settles callers context.settings
        (context.callDepth - 1)) :
    (delivering context (caller :: callers) result).Settles callers context.settings
      (context.callDepth - 1) := by
  cases received : caller.receive result with
  | ok resumed => exact (taken resumed received).of_next (.resume received)
  | error failure => exact ⟨_, _, .single (.unwind received), rfl, rfl⟩

end Phase

end Machine

namespace Activation

open Machine

/-- The length of the code ahead. -/
def ahead (activation : Activation) : Nat :=
  activation.function.code.size - activation.pc

/-- An instruction that is executed and does not jump back leaves less of the code ahead. -/
theorem ahead_lt_of_step {activation moved : Activation} {context after : Context} {flow : Flow}
    {callers : List Activation} (stepped : activation.step context = (.ok flow, after, moved))
    (forward : ¬ (Phase.running ⟨context, activation, callers⟩).JumpsBack) :
    moved.ahead < activation.ahead := by
  have notBack : ∀ target, flow = .jump target → activation.pc < target := by
    rintro target rfl
    simpa [Phase.JumpsBack, jumpsBack, stepped] using forward
  cases Activation.stepped stepped with
  | @executed _ next _ _ decoded executed inside =>
      have started := Instruction.lt_size_of_decode_eq_ok decoded
      have advanced := Instruction.lt_of_decode_eq_ok decoded
      have onward : activation.pc < flow.place next := by
        cases flow with
        | jump target => exact notBack target rfl
        | next | call | leave => exact advanced
      simp only [ahead]
      omega

/-- Taking a result leaves as much code ahead as before. -/
theorem ahead_receive {activation resumed : Activation} {result : Result}
    (received : activation.receive result = .ok resumed) : resumed.ahead = activation.ahead := by
  obtain ⟨value, _, _, rfl⟩ := receive_eq_ok received
  rfl

end Activation

namespace Machine.Phase

/-- Every activation that has at most `length` bytes of code ahead comes to a result, where
at most `room` further levels of nesting are left and no jump goes back. -/
def SettlesWithin (room length : Nat) : Prop :=
  ∀ (context : Context) (activation : Activation) (callers : List Activation),
    context.settings.maxCallDepth - context.callDepth ≤ room → activation.ahead ≤ length →
    (running ⟨context, activation, callers⟩).Forward →
    (running ⟨context, activation, callers⟩).Settles callers context.settings
      (context.callDepth - 1)

/-- One instruction: the activation goes on with less code ahead, and what it calls has one
level of nesting less. -/
theorem settlesWithin_step {room length : Nat}
    (deeper : ∀ less, less < room → ∀ length, SettlesWithin less length)
    (shorter : ∀ less, less < length → SettlesWithin room less) : SettlesWithin room length := by
  intro context activation callers levels code forward
  rcases stepped : activation.step context with ⟨failure | flow, middle, moved⟩
  · have same := Activation.sameLevel_step stepped
    refine ⟨_, _, .single (.fail stepped), same.settings, ?_⟩
    exact congrArg (· - 1) same.callDepth
  have same := Activation.sameLevel_step stepped
  have less : moved.ahead < activation.ahead :=
    Activation.ahead_lt_of_step stepped (forward _ .refl)
  -- The activation behind the instruction, in whatever context of the same level.
  have onward : ∀ later resumed, context.SameLevel later → resumed.ahead = moved.ahead →
      (running ⟨later, resumed, callers⟩).Forward →
      (running ⟨later, resumed, callers⟩).Settles callers context.settings
        (context.callDepth - 1) := by
    intro later resumed level stands ahead
    have settles := shorter resumed.ahead (by omega) later resumed callers
      (by rwa [level.settings, level.callDepth]) (Nat.le_refl _) ahead
    rwa [level.settings, level.callDepth] at settles
  have delivery : ∀ later result, context.SameLevel later →
      (delivering later (moved :: callers) result).Forward →
      (delivering later (moved :: callers) result).Settles callers context.settings
        (context.callDepth - 1) := by
    intro later result level ahead
    rw [← level.settings, ← level.callDepth]
    refine settles_delivery fun resumed received => ?_
    rw [level.settings, level.callDepth]
    exact onward later resumed level (Activation.ahead_receive received)
      (ahead.of_next (.resume received))
  have proceeding : (flow = .next ∨ ∃ target, flow = .jump target) →
      (running ⟨context, activation, callers⟩).Settles callers context.settings
        (context.callDepth - 1) := by
    intro alone
    have next : Next (running ⟨context, activation, callers⟩)
        (running ⟨middle, moved, callers⟩) := .proceed stepped alone
    exact (onward middle moved same rfl (forward.of_next next)).of_next next
  cases flow with
  | next => exact proceeding (.inl rfl)
  | jump target => exact proceeding (.inr ⟨target, rfl⟩)
  | leave value =>
      refine ⟨_, _, .single (.leave stepped), same.settings, ?_⟩
      exact congrArg (· - 1) same.callDepth
  | call callee arguments =>
      rcases dispatched : middle.dispatch callee arguments with ⟨fault | value | inner, after⟩
      · have next : Next (running ⟨context, activation, callers⟩)
            (delivering after (moved :: callers) (.error ⟨fault, []⟩)) := .refuse stepped dispatched
        obtain ⟨_, level⟩ := Context.dispatch_done (by simp) dispatched
        exact (delivery after _ (same.trans level) (forward.of_next next)).of_next next
      · have next : Next (running ⟨context, activation, callers⟩)
            (delivering after (moved :: callers) (.ok value)) := .answer stepped dispatched
        obtain ⟨_, level⟩ := Context.dispatch_done (by simp) dispatched
        exact (delivery after _ (same.trans level) (forward.of_next next)).of_next next
      · have next : Next (running ⟨context, activation, callers⟩)
            (running ⟨after, inner, moved :: callers⟩) := .enter stepped dispatched
        obtain ⟨_, below, settings, callDepth⟩ := Context.dispatch_activation dispatched
        rw [same.settings, same.callDepth] at below
        have inside := deeper (room - 1) (by omega) inner.ahead after inner (moved :: callers)
          (by rw [settings, callDepth, same.settings, same.callDepth]; omega) (Nat.le_refl _)
          (forward.of_next next)
        obtain ⟨left, result, returned, sameSettings, sameDepth⟩ := inside
        have reached := Relation.ReflTransGen.head next returned
        have level : context.SameLevel left := by
          refine ⟨?_, ?_⟩
          · rw [sameSettings, settings, same.settings]
          · rw [sameDepth, callDepth, same.callDepth, Nat.add_sub_cancel]
        exact (delivery left result level (forward.of_reaches reached)).of_reaches reached

/-- Every activation settles, whatever room for nesting and code there is. -/
theorem settlesWithin (room length : Nat) : SettlesWithin room length := by
  induction room using Nat.strongRecOn generalizing length with
  | ind room deeper =>
      induction length using Nat.strongRecOn with
      | ind length shorter => exact settlesWithin_step deeper shorter

end Machine.Phase

namespace Machine

/-- A machine that is done stays done with more steps. -/
theorem run_mono {fuel more : Nat} {machine : Machine} {outcome : Result × Context}
    (ran : run fuel machine = some outcome) (enough : fuel ≤ more) :
    run more machine = some outcome := by
  induction fuel generalizing machine more with
  | zero => cases ran
  | succ fuel ih =>
      obtain ⟨more, rfl⟩ := Nat.exists_eq_add_of_lt enough
      rw [run] at ran ⊢
      cases stepped : machine.step with
      | running moved =>
          rw [stepped] at ran
          exact ih ran (Nat.le_add_right fuel more)
      | done context result =>
          rw [stepped] at ran
          exact ran

/-- Whether the machine is done within `fuel` steps and jumps only forward until then. -/
def runsForward : Nat → Machine → Bool
  | 0, _ => false
  | fuel + 1, machine =>
    !machine.jumpsBack && match machine.step with
      | .running machine => runsForward fuel machine
      | .done _ _ => true

/-- A machine in this state is done after some steps and jumps only forward. -/
def State.RunsForward : State → Prop
  | .running machine => ∃ fuel, machine.runsForward fuel = true
  | .done _ _ => True

/-- A run that was checked has no jump back now, and goes on so. -/
theorem runsForward_step {machine : Machine}
    (runs : (State.running machine).RunsForward) :
    machine.jumpsBack = false ∧ machine.step.RunsForward := by
  obtain ⟨fuel, checked⟩ := runs
  cases fuel with
  | zero => cases checked
  | succ fuel =>
      simp only [runsForward, Bool.and_eq_true, Bool.not_eq_true'] at checked
      refine ⟨checked.1, ?_⟩
      cases stepped : machine.step with
      | running moved =>
          rw [stepped] at checked
          exact ⟨fuel, checked.2⟩
      | done context result => trivial

namespace Phase

/-- What was checked of a phase holds of the next one. -/
theorem Next.runsForward {before after : Phase} (next : Next before after)
    (runs : before.settle.RunsForward) : after.settle.RunsForward := by
  cases next with
  | proceed stepped onward =>
      have further := (runsForward_step runs).2
      obtain rfl | ⟨target, rfl⟩ := onward <;> simp only [step, stepped] at further <;>
        exact further
  | enter stepped dispatched | answer stepped dispatched | refuse stepped dispatched =>
      have further := (runsForward_step runs).2
      simp only [step, stepped, dispatched] at further
      exact further
  | leave stepped | fail stepped =>
      have further := (runsForward_step runs).2
      simp only [step, stepped] at further
      exact further
  | resume received | unwind received =>
      simp only [settle, Machine.resume, received] at runs
      exact runs

/-- Running the machine decides whether it jumps back. -/
theorem forward_of_runsForward {machine : Machine} {fuel : Nat}
    (checked : machine.runsForward fuel = true) : (running machine).Forward := by
  intro later reached
  have runs : later.settle.RunsForward := by
    induction reached with
    | refl => exact ⟨fuel, checked⟩
    | tail _ next ih => exact next.runsForward ih
  cases later with
  | running moved => simp [JumpsBack, (runsForward_step runs).1]
  | delivering => exact not_false

end Phase

end Machine

namespace Context

open Machine

/-- A call that is done stays done with more steps. -/
theorem call_mono {context : Context} {callee : Value} {arguments : List Value} {fuel more : Nat}
    {outcome : Result × Context} (called : context.call fuel callee arguments = some outcome)
    (enough : fuel ≤ more) : context.call more callee arguments = some outcome := by
  unfold call at called ⊢
  rcases dispatched : context.dispatch callee arguments with ⟨fault | value | activation, started⟩
  all_goals rw [dispatched] at called
  · exact called
  · exact called
  · exact run_mono called enough

/-- Whether the machine that a call starts, if it starts one, is done within `fuel` steps and jumps
only forward until then. -/
def runsForward (context : Context) (fuel : Nat) (callee : Value) (arguments : List Value) : Bool :=
  match context.dispatch callee arguments with
  | (.ok (.activation activation), started) =>
    Machine.runsForward fuel { context := started, activation }
  | (.ok (.value _), _) => true
  | (.error _, _) => true

/-- Running a call decides whether it jumps back. -/
theorem forward_of_runsForward {context : Context} {fuel : Nat} {callee : Value}
    {arguments : List Value} (checked : context.runsForward fuel callee arguments = true) :
    ∀ machine phase, context.Starts callee arguments machine →
      Phase.Reaches (.running machine) phase → ¬ phase.JumpsBack := by
  intro machine phase starts reached
  obtain ⟨activation, started, rfl, dispatched⟩ := starts.dispatched
  rw [runsForward, dispatched] at checked
  exact Phase.forward_of_runsForward checked phase reached

/-- A call that never takes a jump to the place of the jump itself or to one before it comes to
an end. -/
theorem exists_call_of_forward {context : Context} {callee : Value} {arguments : List Value}
    (forward : ∀ machine phase, context.Starts callee arguments machine →
      Phase.Reaches (.running machine) phase → ¬ phase.JumpsBack) :
    ∃ fuel outcome, context.call fuel callee arguments = some outcome := by
  rcases dispatched : context.dispatch callee arguments with ⟨fault | value | activation, started⟩
  · exact ⟨0, (.error ⟨fault, []⟩, started), by rw [call, dispatched]⟩
  · exact ⟨0, (.ok value, started), by rw [call, dispatched]⟩
  · have ahead : (Phase.running { context := started, activation }).Forward :=
      fun phase reached => forward _ phase (.call dispatched) reached
    obtain ⟨after, result, reached, _⟩ := Phase.settlesWithin _ _ started activation []
      (Nat.le_refl _) (Nat.le_refl _) ahead
    obtain ⟨fuel, ran⟩ := exists_run_iff_reaches.mpr reached
    exact ⟨fuel, (result, after), by rw [call, dispatched]; exact ran⟩

end Context

end ByteLisp
