import ByteLisp.Proofs.Termination
import ByteLisp.Proofs.Tracing

/-!
# The sites of a failure

A fault arises in the innermost activation of a machine, and passes through all the
activations that wait for it on its way out. The failure that comes out therefore names one
site for each activation that was live when the fault arose: the outer ones at the call
instruction at which they waited, the innermost one at the instruction that was at fault. A
call that fails before an activation is there for it belongs to the call instruction.
-/

namespace ByteLisp

open Machine

/-- Only a call instruction makes a call. -/
theorem Execute.opcode_of_call {constants : Array Value} {base : Nat} {instruction : Instruction}
    {running after : Running} {callee : Value} {arguments : List Value}
    (executed : Execute.instruction constants base instruction running =
      (.ok (.call callee arguments), after)) : instruction.opcode = .call := by
  obtain ⟨shift, given, _⟩ := (regular_operation _ _ _ _).depth _ _ _ executed
  simp only [Opcode.depthChange] at given
  split at given
  · assumption
  · cases given

namespace Activation

variable {activation moved : Activation} {context after : Context}

/-- A step comes to exactly what `Stepped` says. -/
theorem Stepped.step_eq {result : Except Failure Flow}
    (steps : activation.Stepped context result after moved) :
    activation.step context = (result, after, moved) := by
  obtain ⟨function, stack, pc, current, base⟩ := activation
  cases steps with
  | ended past => rw [step, if_pos past]
  | undecodable inside undecoded => rw [step, if_neg (Nat.not_le.mpr inside), undecoded]
  | failed decoded executed =>
      have inside := Nat.not_le.mpr (Instruction.lt_size_of_decode_eq_ok decoded)
      rw [step, if_neg inside, decoded]
      dsimp only at executed ⊢
      rw [executed]
  | astray decoded executed outside =>
      have inside := Nat.not_le.mpr (Instruction.lt_size_of_decode_eq_ok decoded)
      rw [step, if_neg inside, decoded]
      dsimp only at executed ⊢
      rw [executed]
      dsimp only
      rw [if_neg (Nat.not_lt.mpr outside)]
  | @executed _ _ flow _ decoded executed lands =>
      have inside := Nat.not_le.mpr (Instruction.lt_size_of_decode_eq_ok decoded)
      rw [step, if_neg inside, decoded]
      dsimp only at executed ⊢
      rw [executed]
      cases flow with
      | jump target =>
          dsimp only
          rw [if_pos (lands target rfl)]
          rfl
      | next | call | leave => rfl

/-- The activation waits behind a call instruction. -/
def AtCall (activation : Activation) : Prop :=
  ∃ operand, Instruction.decode activation.function.code activation.current =
    .ok (⟨.call, operand⟩, activation.pc)

/-- An activation that makes a call stands at its call instruction. -/
theorem atCall_step {callee : Value} {arguments : List Value}
    (ran : activation.step context = (.ok (.call callee arguments), after, moved)) :
    moved.AtCall := by
  cases stepped ran with
  | @executed instruction next _ _ decoded executed inside =>
      obtain ⟨opcode, operand⟩ := instruction
      obtain rfl : opcode = .call := Execute.opcode_of_call executed
      exact ⟨operand, decoded⟩

/-- A fault arises in the activation, which is doing this. -/
inductive Raises (activation : Activation) (context : Context) : Fault → Doing → Prop where
  /-- The code has ended. -/
  | atEnd (past : activation.function.code.size ≤ activation.pc) :
      Raises activation context .missingReturn .atEnd
  /-- There is no instruction here. -/
  | decoding {error : CodeError} (inside : activation.pc < activation.function.code.size)
      (undecoded : Instruction.decode activation.function.code activation.pc = .error error) :
      Raises activation context (.code error) .decoding
  /-- The instruction fails. -/
  | executing {instruction : Instruction} {next : Nat} {fault : Fault} {left : Running}
      (decoded : Instruction.decode activation.function.code activation.pc =
        .ok (instruction, next))
      (executed : Execute.instruction activation.function.constants activation.base instruction
        ⟨context.recordInstruction activation.pc instruction activation.stack.depth,
          activation.stack⟩ = (.error fault, left)) :
      Raises activation context fault (.executing instruction.opcode)
  /-- The instruction jumps to where there is no code. -/
  | jumping {instruction : Instruction} {next target : Nat} {left : Running}
      (decoded : Instruction.decode activation.function.code activation.pc =
        .ok (instruction, next))
      (executed : Execute.instruction activation.function.constants activation.base instruction
        ⟨context.recordInstruction activation.pc instruction activation.stack.depth,
          activation.stack⟩ = (.ok (.jump target), left))
      (outside : activation.function.code.size ≤ target) :
      Raises activation context (.invalidJump target activation.function.code.size)
        (.executing instruction.opcode)
  /-- The instruction makes a call, and there is no function to call, a built-in function
  fails, or an activation cannot be started. -/
  | calling {operand : UInt16} {next : Nat} {left : Running} {callee : Value}
      {arguments : List Value} {fault : Fault} {refused : Context}
      (decoded : Instruction.decode activation.function.code activation.pc =
        .ok (⟨.call, operand⟩, next))
      (executed : Execute.instruction activation.function.constants activation.base
        ⟨.call, operand⟩
        ⟨context.recordInstruction activation.pc ⟨.call, operand⟩ activation.stack.depth,
          activation.stack⟩ = (.ok (.call callee arguments), left))
      (dispatched : left.context.dispatch callee arguments = (.error fault, refused)) :
      Raises activation context fault (.executing .call)

/-- An instruction that fails has raised the fault. -/
theorem raises_of_step {failure : Failure}
    (ran : activation.step context = (.error failure, after, moved)) :
    ∃ doing, activation.Raises context failure.cause doing := by
  cases stepped ran with
  | ended past => exact ⟨_, .atEnd past⟩
  | undecodable inside undecoded => exact ⟨_, .decoding inside undecoded⟩
  | failed decoded executed => exact ⟨_, .executing decoded executed⟩
  | astray decoded executed outside => exact ⟨_, .jumping decoded executed outside⟩

/-- A call that fails at once is raised by the call instruction. -/
theorem raises_of_call {callee : Value} {arguments : List Value} {fault : Fault}
    {refused : Context}
    (ran : activation.step context = (.ok (.call callee arguments), after, moved))
    (dispatched : after.dispatch callee arguments = (.error fault, refused)) :
    activation.Raises context fault (.executing .call) := by
  cases stepped ran with
  | @executed instruction next _ left decoded executed inside =>
      obtain ⟨opcode, operand⟩ := instruction
      obtain rfl : opcode = .call := Execute.opcode_of_call executed
      exact .calling decoded executed dispatched

/-- The next instruction of the activation was traced between the two contexts, if it is
the one with this opcode that the activation is executing. -/
def Records (activation : Activation) (before after : Context) (doing : Doing) : Prop :=
  ∀ opcode, doing = .executing opcode → ∃ instruction : Instruction, instruction.opcode = opcode ∧
    (before.recordInstruction activation.pc instruction activation.stack.depth).SameTrace after

/-- What is recorded stays recorded while the trace does not change. -/
theorem Records.trans {doing : Doing} {before middle : Context}
    (records : activation.Records before middle doing) (same : middle.SameTrace after) :
    activation.Records before after doing := by
  intro opcode executes
  obtain ⟨instruction, isIt, traced⟩ := records opcode executes
  exact ⟨instruction, isIt, traced.trans same⟩

/-- An instruction is recorded before it is executed, and executing it records nothing. -/
theorem records_of_executed {instruction : Instruction} {outcome : Except Fault Flow}
    {left : Running}
    (executed : Execute.instruction activation.function.constants activation.base instruction
      ⟨context.recordInstruction activation.pc instruction activation.stack.depth,
        activation.stack⟩ = (outcome, left)) :
    activation.Records context left.context (.executing instruction.opcode) := by
  rintro opcode ⟨⟩
  exact ⟨instruction, rfl, Execute.sameTrace_instruction executed⟩

end Activation

/-- The sites of the live activations, outermost first, while the innermost one is doing
this. -/
def Machine.sites (machine : Machine) (doing : Doing) : List Site :=
  machine.callers.reverse.map Activation.callSite ++ [⟨machine.activation.pc, doing⟩]

/-- There is one site for each live activation. -/
@[simp] theorem Machine.length_sites (machine : Machine) (doing : Doing) :
    (machine.sites doing).length = machine.callers.length + 1 := by
  simp [sites]

/-- The site of the failing activation is the last. -/
@[simp] theorem Machine.getLast?_sites (machine : Machine) (doing : Doing) :
    (machine.sites doing).getLast? = some ⟨machine.activation.pc, doing⟩ := by
  simp [sites]

namespace Machine.Phase

/-- The activations that wait do so behind call instructions. -/
theorem Next.atCall {before after : Phase} (next : Next before after)
    (waiting : ∀ caller ∈ before.suspended, caller.AtCall) :
    ∀ caller ∈ after.suspended, caller.AtCall := by
  cases next with
  | proceed | leave | fail => exact waiting
  | enter stepped | answer stepped | refuse stepped =>
      exact List.forall_mem_cons.mpr ⟨Activation.atCall_step stepped, waiting⟩
  | resume | unwind => exact (List.forall_mem_cons.mp waiting).2

/-- All along a run, activations that wait stand at their calls. -/
theorem Reaches.atCall {before after : Phase} (reached : Reaches before after)
    (waiting : ∀ caller ∈ before.suspended, caller.AtCall) :
    ∀ caller ∈ after.suspended, caller.AtCall := by
  induction reached with
  | refl => exact waiting
  | tail _ next ih => exact next.atCall ih

/-- A failure passes through all the activations that wait, and each adds the site of its
call. -/
theorem reaches_unwound (context : Context) (waiting : List Activation) (fault : Fault)
    (sites : List Site) :
    ∃ after, Reaches (.delivering context waiting (.error ⟨fault, sites⟩))
        (.delivering after []
          (.error ⟨fault, waiting.reverse.map Activation.callSite ++ sites⟩)) ∧
      context.SameTrace after := by
  induction waiting generalizing context sites with
  | nil => exact ⟨context, .refl, .refl context⟩
  | cons caller callers ih =>
      obtain ⟨after, further, same⟩ := ih (context.exit caller.base caller.stack.highWater true)
        (caller.callSite :: sites)
      have next : Next (.delivering context (caller :: callers) (.error ⟨fault, sites⟩))
          (.delivering (context.exit caller.base caller.stack.highWater true) callers
            (.error ⟨fault, caller.callSite :: sites⟩)) := .unwind rfl
      refine ⟨after, ?_, (context.sameTrace_exit _ _ _).trans same⟩
      rw [List.reverse_cons, List.map_append, List.append_assoc]
      exact .head next further

/-- A fault that arises leads to a failure, with the site of the innermost activation. -/
theorem next_of_raises {context : Context} {activation : Activation} {fault : Fault}
    {doing : Doing} (raises : activation.Raises context fault doing) (callers : List Activation) :
    ∃ after waiting sites,
      Next (.running ⟨context, activation, callers⟩)
        (.delivering after waiting (.error ⟨fault, sites⟩)) ∧
      waiting.reverse.map Activation.callSite ++ sites =
        Machine.sites ⟨context, activation, callers⟩ doing ∧
      activation.Records context after doing := by
  -- All but a refused call end the activation itself.
  have ends : ∀ {after : Context} {moved : Activation},
      activation.Stepped context (.error ⟨fault, [⟨activation.pc, doing⟩]⟩) after moved →
      activation.Records context after doing →
      ∃ after waiting sites,
        Next (.running ⟨context, activation, callers⟩)
          (.delivering after waiting (.error ⟨fault, sites⟩)) ∧
        waiting.reverse.map Activation.callSite ++ sites =
          Machine.sites ⟨context, activation, callers⟩ doing ∧
        activation.Records context after doing := by
    intro after moved steps records
    exact ⟨_, callers, _, .fail steps.step_eq, rfl, records.trans (Context.sameTrace_exit _ _ _ _)⟩
  cases raises with
  | atEnd past => exact ends (.ended past) (by simp [Activation.Records])
  | decoding inside undecoded =>
      exact ends (.undecodable inside undecoded) (by simp [Activation.Records])
  | executing decoded executed =>
      exact ends (.failed decoded executed) (Activation.records_of_executed executed)
  | jumping decoded executed outside =>
      exact ends (.astray decoded executed outside) (Activation.records_of_executed executed)
  | calling decoded executed dispatched =>
      have steps := Activation.Stepped.step_eq (.executed decoded executed (by simp))
      refine ⟨_, _, _, .refuse steps dispatched, ?_, ?_⟩
      · simp [Machine.sites, Activation.callSite]
      · exact (Activation.records_of_executed executed).trans
          (Context.sameTrace_dispatch dispatched)

/-- A fault that arises ends all the live activations, and the failure names them. -/
theorem reaches_of_raises {machine : Machine} {fault : Fault} {doing : Doing}
    (raises : machine.activation.Raises machine.context fault doing) :
    ∃ after, Reaches (.running machine)
        (.delivering after [] (.error ⟨fault, machine.sites doing⟩)) ∧
      machine.activation.Records machine.context after doing := by
  obtain ⟨context, activation, callers⟩ := machine
  obtain ⟨middle, waiting, sites, next, whole, records⟩ := next_of_raises raises callers
  obtain ⟨after, unwound, same⟩ := reaches_unwound middle waiting fault sites
  rw [whole] at unwound
  exact ⟨after, .head next unwound, records.trans same⟩

/-- A machine comes to one end. -/
theorem end_unique {machine : Machine} {one other : Result} {after behind : Context}
    (first : Reaches (.running machine) (.delivering after [] one))
    (second : Reaches (.running machine) (.delivering behind [] other)) :
    one = other ∧ after = behind := by
  obtain ⟨fuel, ran⟩ := exists_run_iff_reaches.mpr first
  obtain ⟨more, again⟩ := exists_run_iff_reaches.mpr second
  have early := run_mono ran (Nat.le_add_right fuel more)
  have late := run_mono again (Nat.le_add_left more fuel)
  rw [early] at late
  cases late
  exact ⟨rfl, rfl⟩

/-- A failure that comes out of a machine has arisen in an activation that ran. -/
theorem Reaches.raised {machine : Machine} {after : Context} {failure : Failure}
    (fitting : (Phase.running machine).Fitting)
    (reached : Reaches (.running machine) (.delivering after [] (.error failure))) :
    ∃ raised doing, Reaches (.running machine) (.running raised) ∧
      raised.activation.Raises raised.context failure.cause doing ∧
      failure.sites = raised.sites doing ∧
      raised.activation.Records raised.context after doing := by
  obtain ⟨phase, earlier, arises⟩ := reached.raises
  have fits := earlier.fitting fitting
  have arisen : ∃ raised doing, phase = .running raised ∧
      raised.activation.Raises raised.context failure.cause doing := by
    generalize failure.cause = fault at arises
    cases arises with
    | instruction stepped =>
        obtain ⟨doing, raises⟩ := Activation.raises_of_step stepped
        exact ⟨_, doing, rfl, raises⟩
    | call stepped dispatched => exact ⟨_, _, rfl, Activation.raises_of_call stepped dispatched⟩
    | @delivery _ _ _ value _ received =>
        -- An activation that waits has room for the value.
        obtain ⟨resumed, taken⟩ := (List.forall_mem_cons.mp fits.1).1.receives value
        rw [taken] at received
        cases received
  obtain ⟨raised, doing, rfl, raises⟩ := arisen
  obtain ⟨behind, ended, records⟩ := reaches_of_raises raises
  obtain ⟨same, rfl⟩ := end_unique reached (earlier.trans ended)
  have sites : failure.sites = raised.sites doing :=
    congrArg Failure.sites (Except.error.inj same)
  exact ⟨raised, doing, earlier, raises, sites, records⟩

end Machine.Phase

namespace Context

variable {context : Context} {callee : Value} {arguments : List Value}

/-- When a machine is started, no activation waits. -/
theorem Starts.noneWaits {machine : Machine} (starts : context.Starts callee arguments machine) :
    ∀ caller ∈ (Phase.running machine).suspended, caller.AtCall := by
  obtain ⟨activation, started, rfl, _⟩ := starts.dispatched
  exact List.forall_mem_nil _

/-- The failure that a started machine ends with, and the moment at which it arose. -/
theorem Starts.raised {machine : Machine} {failure : Failure} {after : Context}
    (starts : context.Starts callee arguments machine)
    (ended : Phase.Reaches (.running machine) (.delivering after [] (.error failure))) :
    ∃ raised doing, Phase.Reaches (.running machine) (.running raised) ∧
      raised.activation.Raises raised.context failure.cause doing ∧
      failure.sites = raised.sites doing ∧
      failure.sites.length = (Phase.running raised).live.length ∧
      (∀ caller ∈ raised.callers, caller.AtCall) ∧
      raised.context.callDepth = context.callDepth + failure.sites.length ∧
      raised.activation.Records raised.context after doing := by
  obtain ⟨fitting, orderly⟩ := starts.fitting
  obtain ⟨raised, doing, reached, raises, sites, records⟩ := ended.raised fitting
  have live : failure.sites.length = raised.callers.length + 1 := by
    rw [sites, length_sites]
  have depth : raised.context.callDepth = context.callDepth + failure.sites.length := by
    rw [live]
    exact (reached.orderly orderly).1.callDepth
  exact ⟨raised, doing, reached, raises, sites, live, reached.atCall starts.noneWaits, depth,
    records⟩

/-- A call fails at once, or with the failure of the machine that it starts. -/
theorem reaches_of_failed_call {fuel : Nat} {failure : Failure} {after : Context}
    (returned : context.call fuel callee arguments = some (.error failure, after)) :
    (context.dispatch callee arguments = (.error failure.cause, after) ∧ failure.sites = []) ∨
      ∃ machine, context.Starts callee arguments machine ∧
        Phase.Reaches (.running machine) (.delivering after [] (.error failure)) := by
  cases Context.returned returned with
  | ended dispatched reached => exact .inr ⟨_, .call dispatched, reached⟩
  | refused dispatched => exact .inl ⟨dispatched, rfl⟩

/-- The last entry of the trace is the instruction that was started last. -/
theorem last_traced {before after : Context} {activation : Activation} {capacity : Nat}
    {opcode : Opcode} (traces : before.Traces capacity) (room : 0 < capacity)
    (records : activation.Records before after (.executing opcode)) :
    ∃ ring entry, after.trace = some ring ∧ ring.toList.getLast? = some entry ∧
      entry.pc = activation.pc ∧ entry.opcode = opcode ∧ entry.callDepth = before.callDepth := by
  obtain ⟨ring, present, sound, rfl⟩ := traces
  obtain ⟨instruction, rfl, same⟩ := records opcode rfl
  have recorded := trace_recordInstruction present activation.pc instruction activation.stack.depth
  exact ⟨_, _, same.trace.trans recorded, TraceRing.getLast?_toList_push sound room _, rfl, rfl,
    rfl⟩

/-- A call that fails either does so at once, before any activation is there for it, and
then names no site; or a fault has arisen in the course of its run. In that case the failure
has one site for each activation that was live at that moment, the outermost first: those
that waited stand at the call instruction behind which they waited, and the last site is the
place of the instruction at fault. When the context keeps a trace, and there was an
instruction at fault, the last entry of the trace is that instruction. Conversely every fault
that arises in the course of the run ends the call in this way. -/
theorem failure_names_live_activations (context : Context) (callee : Value)
    (arguments : List Value) :
    (∀ fuel failure after,
      (context.call fuel callee arguments = some (.error failure, after) ∨
        ∃ address, callee = .function address ∧
          context.invoke fuel address arguments = some (.error failure, after)) →
      ((context.dispatch callee arguments = (.error failure.cause, after) ∧ failure.sites = []) ∨
        ∃ machine raised doing, context.Starts callee arguments machine ∧
          Phase.Reaches (.running machine) (.running raised) ∧
          raised.activation.Raises raised.context failure.cause doing ∧
          failure.sites = raised.sites doing ∧
          failure.sites.length = (Phase.running raised).live.length ∧
          (∀ caller ∈ raised.callers, caller.AtCall) ∧
          raised.context.callDepth = context.callDepth + failure.sites.length) ∧
      ∀ capacity, context.Traces capacity → after.Traces capacity ∧ (0 < capacity →
        ∀ site, failure.sites.getLast? = some site →
        site.doing ≠ .atEnd → site.doing ≠ .decoding →
        ∃ ring entry, after.trace = some ring ∧ ring.toList.getLast? = some entry ∧
          site = ⟨entry.pc, .executing entry.opcode⟩ ∧
          entry.callDepth = context.callDepth + failure.sites.length)) ∧
    (∀ machine raised fault doing, context.Starts callee arguments machine →
      Phase.Reaches (.running machine) (.running raised) →
      raised.activation.Raises raised.context fault doing →
      ∃ fuel after, context.call fuel callee arguments =
        some (.error ⟨fault, raised.sites doing⟩, after)) := by
  constructor
  · intro fuel failure after returned
    have called : context.call fuel callee arguments = some (.error failure, after) := by
      obtain called | ⟨address, rfl, invoked⟩ := returned
      · exact called
      · rwa [invoke_eq_call] at invoked
    obtain ⟨refused, noSites⟩ | ⟨machine, starts, ended⟩ := reaches_of_failed_call called
    · refine ⟨.inl ⟨refused, noSites⟩, fun capacity traces => ?_⟩
      refine ⟨(lasting_traces capacity).call called traces, ?_⟩
      simp [noSites]
    · obtain ⟨raised, doing, reached, raises, sites, live, atCall, depth, records⟩ :=
        starts.raised ended
      refine ⟨.inr ⟨machine, raised, doing, starts, reached, raises, sites, live, atCall, depth⟩,
        ?_⟩
      intro capacity traces
      refine ⟨(lasting_traces capacity).call called traces, ?_⟩
      intro room site last notEnd notDecoding
      rw [sites, getLast?_sites] at last
      cases last
      cases doing with
      | atEnd => exact absurd rfl notEnd
      | decoding => exact absurd rfl notDecoding
      | executing opcode =>
          have atRaise := (lasting_traces capacity).starts starts reached traces
          obtain ⟨ring, entry, present, newest, pc, isIt, level⟩ :=
            last_traced atRaise room records
          refine ⟨ring, entry, present, newest, ?_, level.trans depth⟩
          rw [pc, isIt]
  · intro machine raised fault doing starts reached raises
    obtain ⟨after, ended, _⟩ := Phase.reaches_of_raises raises
    obtain ⟨fuel, ran⟩ := exists_run_iff_reaches.mpr (reached.trans ended)
    obtain ⟨activation, started, rfl, dispatched⟩ := starts.dispatched
    refine ⟨fuel, after, ?_⟩
    rw [call, dispatched]
    exact ran

/-- A context with a trace and two functions, of which the first calls the second, and the
second takes the `car` of an integer. -/
def tracedNesting : Context :=
  { Context.new {} (.traced 2) with
    memory.heap.functions :=
      ⟨#[⟨.lexical ⟨0, 0, false⟩, #[192, 32, 135], #[.function 1], 1, none, none⟩,
        ⟨.lexical ⟨0, 0, false⟩, #[192, 64, 135], #[.int 7], 1, none, none⟩]⟩ }

/-- The failure names both activations, and the last entry of the trace is the `car`. -/
theorem tracedNesting_fails_at_car :
    ∃ failure after, tracedNesting.call 9 (.function 0) [] = some (.error failure, after) ∧
      failure.sites = [⟨1, .executing .call⟩, ⟨1, .executing .car⟩] ∧
      ∃ ring entry, after.trace = some ring ∧ ring.toList.getLast? = some entry ∧
        entry.pc = 1 ∧ entry.opcode = .car ∧ entry.callDepth = 2 := by
  have fails : (tracedNesting.call 9 (.function 0) []).bind (fun outcome =>
      outcome.1.casesOn some fun _ => none) = some ⟨.wrongType .listp (.int 7),
        [⟨1, .executing .call⟩, ⟨1, .executing .car⟩]⟩ := by
    decide +kernel
  have traces : tracedNesting.Traces 2 := (traces_new {} (.traced 2) rfl).of_sameTrace ⟨rfl, rfl⟩
  rcases called : tracedNesting.call 9 (.function 0) [] with _ | ⟨failure | value, after⟩
  · simp [called] at fails
  · rw [called] at fails
    obtain rfl : failure = _ := Option.some.inj fails
    obtain ⟨_, traced⟩ := (tracedNesting.failure_names_live_activations (.function 0) []).1 9 _
      after (.inl called)
    obtain ⟨ring, entry, present, newest, same, level⟩ :=
      (traced 2 traces).2 (by decide) _ rfl (by decide) (by decide)
    obtain ⟨pc, isCar⟩ : 1 = entry.pc ∧ Opcode.car = entry.opcode := by simpa using same
    exact ⟨_, after, rfl, rfl, ring, entry, present, newest, pc.symm, isCar.symm, level⟩
  · simp [called] at fails

end Context

end ByteLisp
