import ByteLisp.Proofs.Unwinding

/-!
# The invariant of the machine

Whatever code its functions hold, a machine keeps its activations in order: no operand
stack holds more than its function declares, an activation that waits has room for the
result, and the activations are nested and counted. A stack can therefore overflow only
where an instruction adds a value to it, or where arguments are laid out on a new one.

`Context.Lasting` is for properties of the context alone: what instructions, calls and the ends
of activations keep is kept by every run and by every call.
-/

namespace ByteLisp

open Machine

/-- The operand stack has the size that the function declares, and has kept to it. -/
structure Activation.Sound (activation : Activation) : Prop where
  stack : activation.stack.Sound
  maxDepth : activation.stack.maxDepth = activation.function.maxDepth

/-- The operand stack has room for the result of a call. -/
structure Activation.Waits (activation : Activation) : Prop extends activation.Sound where
  room : activation.stack.depth < activation.function.maxDepth

/-- The instruction leaves more values on the operand stack than it finds. -/
def Instruction.grows (instruction : Instruction) : Bool :=
  match instruction.opcode with
  | .stackRef | .dup | .varRef | .constant | .constant2 => true
  | .listN | .concatN => instruction.operand = 0
  | _ => false

/-- An instruction whose effect is positive is one of those that add a value. -/
theorem Instruction.grows_of_stackEffect_pos {instruction : Instruction}
    (positive : 0 < instruction.opcode.stackEffect instruction.operand) :
    instruction.grows = true := by
  obtain ⟨opcode, operand⟩ := instruction
  cases opcode with
  | stackRef | dup | varRef | constant | constant2 => rfl
  | listN | concatN =>
      simp only [Opcode.stackEffect] at positive
      have none : operand.toNat = 0 := by omega
      simp [grows, ← UInt16.toNat_inj, none]
  | call | discardN =>
      simp only [Opcode.stackEffect] at positive
      omega
  | _ => simp [Opcode.stackEffect] at positive

namespace Activation

variable {activation moved resumed : Activation} {context after : Context}

/-- An instruction keeps the operand stack within its size. -/
theorem sound_step {result : Except Failure Flow} (sound : activation.Sound)
    (ran : activation.step context = (result, after, moved)) : moved.Sound := by
  obtain ⟨rfl, rfl⟩ | ⟨instruction, next, outcome, place, left, decoded, executed, rfl, rfl⟩ :=
    step_effect ran
  · exact sound
  · obtain ⟨_, maxDepth, kept⟩ := (Execute.regular_operation _ _ _ _).keeps executed
    exact ⟨kept sound.stack, maxDepth.trans sound.maxDepth⟩

/-- An activation that makes a call has room for the result: it has taken the function
off its operand stack. -/
theorem waits_step {callee : Value} {arguments : List Value} (sound : activation.Sound)
    (ran : activation.step context = (.ok (.call callee arguments), after, moved)) :
    moved.Waits := by
  refine ⟨sound_step sound ran, ?_⟩
  cases stepped ran with
  | executed decoded executed =>
      obtain ⟨shift, given, changed⟩ := (Execute.regular_operation _ _ _ _).depth _ _ _ executed
      simp only [Opcode.depthChange] at given
      split at given
      · rename_i isCall
        cases given
        have depth_le := sound.stack.depth_le
        have highWater_le := sound.stack.highWater_le
        have maxDepth := sound.maxDepth
        simp only [isCall, Opcode.stackEffect] at changed ⊢
        omega
      · cases given

/-- So does taking the result of a call. -/
theorem sound_receive {result : Result} (sound : activation.Sound)
    (received : activation.receive result = .ok resumed) : resumed.Sound := by
  obtain ⟨value, _, room, rfl⟩ := receive_eq_ok received
  have pushed := OperandStack.sound_push value sound.stack
  simp only [OperandStack.depth] at room
  simp only [OperandStack.push, room, if_true] at pushed
  exact ⟨pushed, sound.maxDepth⟩

/-- An activation that waits takes every value. -/
theorem Waits.receives (waits : activation.Waits) (value : Value) :
    ∃ resumed, activation.receive (.ok value) = .ok resumed := by
  have room : activation.stack.depth < activation.stack.maxDepth := by
    rw [waits.maxDepth]
    exact waits.room
  cases received : activation.receive (.ok value) with
  | ok resumed => exact ⟨resumed, rfl⟩
  | error failure =>
      obtain ⟨_, given, _⟩ | ⟨_, _, full⟩ := receive_eq_error received
      · cases given
      · exact absurd room full

/-- Only an instruction that adds a value to the operand stack can overflow it. -/
theorem grows_of_overflow {failure : Failure} {limit : Nat} (sound : activation.Sound)
    (ran : activation.step context = (.error failure, after, moved))
    (overflow : failure.cause = .stackDepthExceeded limit) :
    ∃ instruction next,
      Instruction.decode activation.function.code activation.pc = .ok (instruction, next) ∧
        instruction.grows = true := by
  cases stepped ran with
  | ended | undecodable | astray => cases overflow
  | @failed instruction next fault left decoded executed =>
      refine ⟨instruction, next, decoded, Instruction.grows_of_stackEffect_pos ?_⟩
      refine Int.not_le.mp fun steady => ?_
      cases overflow
      have depth_le := sound.stack.depth_le
      have highWater_le := sound.stack.highWater_le
      have fits := (Execute.regular_operation activation.function.constants activation.base
        instruction.opcode instruction.operand).fits
        ⟨context.recordInstruction activation.pc instruction activation.stack.depth,
          activation.stack⟩ limit
        (by simp only; omega)
      unfold Execute.instruction at executed
      rw [executed] at fits
      exact fits rfl

end Activation

/-! ## Passing arguments -/

namespace Calling

/-- Pushing values keeps an operand stack sound, also when it overflows. -/
theorem sound_pushAll (values : List Value) {stack : OperandStack} (sound : stack.Sound) :
    (pushAll values stack).2.Sound ∧ (pushAll values stack).2.maxDepth = stack.maxDepth := by
  induction values generalizing stack with
  | nil => exact ⟨sound, rfl⟩
  | cons value values ih =>
      have pushed := OperandStack.sound_push value sound
      have size := OperandStack.maxDepth_push value stack
      have inTurn : pushAll (value :: values) = (do OperandStack.push value; pushAll values) := rfl
      rw [inTurn, run_bind]
      rcases ran : OperandStack.push value stack with ⟨fault | _, after⟩
      · rw [ran] at pushed size
        exact ⟨pushed, size⟩
      · rw [ran] at pushed size
        obtain ⟨rest, same⟩ := ih pushed
        exact ⟨rest, same.trans size⟩

/-- The operand stack on which arguments are laid out is sound. -/
theorem sound_pushLexical {callee : Value} {descriptor : Descriptor} {arguments : List Value}
    {maxDepth : Nat} {heap after : Heap} {stack : OperandStack}
    (laid : pushLexical callee descriptor arguments maxDepth heap = (.ok stack, after)) :
    stack.Sound ∧ stack.maxDepth = maxDepth := by
  unfold pushLexical at laid
  dsimp only at laid
  split at laid
  · cases laid
  · rw [run_bind] at laid
    rcases filled : slots descriptor arguments heap with ⟨fault | values, middle⟩
    · rw [filled] at laid
      cases laid
    · rw [filled] at laid
      have empty : OperandStack.Sound { maxDepth } := ⟨Nat.le_refl _, Nat.zero_le _⟩
      have sound := sound_pushAll values empty
      dsimp only at laid
      rcases ran : pushAll values { maxDepth } with ⟨fault | _, pushed⟩
      · rw [ran] at laid
        cases laid
      · rw [ran] at laid sound
        cases laid
        exact sound

/-- The operand stack of a new activation is sound. -/
theorem sound_prepare {callee : Value} {function : Function} {arguments : List Value}
    {memory after : Memory} {stack : OperandStack} {bound : Nat}
    (prepared : prepare callee function arguments memory = (.ok (stack, bound), after)) :
    stack.Sound ∧ stack.maxDepth = function.maxDepth := by
  cases parameters : function.parameters with
  | dynamic list =>
      simp only [prepare, parameters, run_bind] at prepared
      rcases named : bindDynamic callee list arguments memory with ⟨fault | count, middle⟩
      · rw [named] at prepared
        cases prepared
      · rw [named] at prepared
        cases prepared
        exact ⟨⟨Nat.le_refl _, Nat.zero_le _⟩, rfl⟩
  | lexical descriptor =>
      simp only [prepare, parameters, run_bind, Action.onHeap] at prepared
      rcases laid : pushLexical callee descriptor arguments function.maxDepth memory.heap with
        ⟨fault | laidOut, left⟩
      · rw [laid] at prepared
        cases prepared
      · rw [laid] at prepared
        cases prepared
        exact sound_pushLexical laid

/-- Binding names can only be refused for a constant. -/
theorem raisesData_bindNames (names : List Symbol) (arguments : List Value) :
    RaisesData (bindNames names arguments) := by
  induction names generalizing arguments with
  | nil => exact raisesData_pure _
  | cons name names ih =>
      exact raisesData_bind (Action.raisesData_onEnv (Environment.raisesData_bind name _))
        fun _ => ih _

/-- Passing arguments by name raises faults of data alone. -/
theorem raisesData_bindDynamic (callee : Value) (list : ParameterList) (arguments : List Value) :
    RaisesData (bindDynamic callee list arguments) := by
  unfold bindDynamic
  dsimp only
  split
  · exact raisesData_throw rfl
  · refine raisesData_bind (raisesData_bindNames _ _) fun further => ?_
    split
    · rename_i name _
      refine raisesData_bind (by simp) fun rest => ?_
      exact raisesData_bind (Action.raisesData_onEnv (Environment.raisesData_bind name rest))
        fun _ => raisesData_pure _
    · exact raisesData_pure _

/-- Passing arguments overflows an operand stack only where it lays them out on one. -/
theorem lexical_of_overflow {callee : Value} {function : Function} {arguments : List Value}
    {memory after : Memory} {limit : Nat}
    (prepared : prepare callee function arguments memory =
      (.error (.stackDepthExceeded limit), after)) :
    ∃ descriptor, function.parameters = .lexical descriptor ∧
      (pushLexical callee descriptor arguments function.maxDepth memory.heap).1 =
        .error (.stackDepthExceeded limit) := by
  cases parameters : function.parameters with
  | dynamic list =>
      have raises : RaisesData (bindDynamic callee list arguments >>= fun bound =>
          pure (({ maxDepth := function.maxDepth } : OperandStack), bound)) :=
        raisesData_bind (raisesData_bindDynamic _ _ _) fun _ => raisesData_pure _
      simp only [prepare, parameters] at prepared
      have ofData := raises memory (.stackDepthExceeded limit) (by rw [prepared])
      cases ofData
  | lexical descriptor =>
      refine ⟨descriptor, rfl, ?_⟩
      simp only [prepare, parameters, run_bind, Action.onHeap] at prepared
      rcases laid : pushLexical callee descriptor arguments function.maxDepth memory.heap with
        ⟨fault | laidOut, left⟩
      · rw [laid] at prepared
        cases prepared
        rfl
      · rw [laid] at prepared
        cases prepared

end Calling

namespace Context

variable {context after : Context} {callee : Value} {arguments : List Value}

/-- A new activation is sound. -/
theorem sound_dispatch {activation : Activation}
    (ran : context.dispatch callee arguments = (.ok (.activation activation), after)) :
    activation.Sound := by
  cases dispatched ran with
  | entered resolved started =>
      cases activated started with
      | ready room prepared =>
          obtain ⟨stack, maxDepth⟩ := Calling.sound_prepare prepared
          exact ⟨stack, maxDepth⟩

/-- The call is of a function with lexical parameters whose operand stack is too small
for the arguments. -/
def ArgumentsOverflow (context : Context) (callee : Value) (arguments : List Value)
    (limit : Nat) : Prop :=
  ∃ address descriptor,
    context.memory.env.indirectFunction callee = .ok (.function address) ∧
    (context.memory.heap.function address).parameters = .lexical descriptor ∧
    (Calling.pushLexical callee descriptor arguments (context.memory.heap.function address).maxDepth
      context.memory.heap).1 = .error (.stackDepthExceeded limit)

/-- A call that overflows at once does so in laying out its arguments. -/
theorem argumentsOverflow_of_dispatch {limit : Nat}
    (ran : context.dispatch callee arguments = (.error (.stackDepthExceeded limit), after)) :
    context.ArgumentsOverflow callee arguments limit := by
  cases dispatched ran with
  | unknown cause =>
      obtain ⟨_, impossible⟩ | ⟨_, impossible⟩ := cause <;> cases impossible
  | refused resolved started =>
      cases activated started with
      | unfit room prepared =>
          obtain ⟨descriptor, lexical, overflow⟩ := Calling.lexical_of_overflow prepared
          exact ⟨_, descriptor, resolved, lexical, overflow⟩
  | @failed primitive _ _ resolved performed =>
      have raised : (primitive.call arguments context.memory).1 =
          .error (.stackDepthExceeded limit) := congrArg Prod.fst performed
      obtain ofData | ⟨fatal, _⟩ := Primitive.ofData_or_oversized raised
      · cases ofData
      · cases fatal

end Context

/-! ## Runs -/

namespace Machine.Phase

/-- The operand stacks keep to their sizes, and there are not too many activations. -/
def Fitting : Phase → Prop
  | .running ⟨context, activation, callers⟩ =>
      activation.Sound ∧ (∀ caller ∈ callers, caller.Waits) ∧
        context.callDepth ≤ context.settings.maxCallDepth
  | .delivering context waiting _ =>
      (∀ caller ∈ waiting, caller.Waits) ∧ context.callDepth ≤ context.settings.maxCallDepth

variable {before after : Phase}

/-- A step keeps operand stacks to their sizes. -/
theorem Next.fitting (next : Next before after) (fitting : before.Fitting) : after.Fitting := by
  cases next with
  | proceed stepped onward =>
      obtain ⟨sound, waiting, level⟩ := fitting
      have same := Activation.sameLevel_step stepped
      refine ⟨Activation.sound_step sound stepped, waiting, ?_⟩
      rwa [same.callDepth, same.settings]
  | enter stepped dispatched =>
      obtain ⟨sound, waiting, _⟩ := fitting
      obtain ⟨_, room, settings, callDepth⟩ := Context.dispatch_activation dispatched
      have waits := Activation.waits_step sound stepped
      refine ⟨Context.sound_dispatch dispatched, List.forall_mem_cons.mpr ⟨waits, waiting⟩, ?_⟩
      rw [callDepth, settings]
      exact room
  | answer stepped dispatched | refuse stepped dispatched =>
      obtain ⟨sound, waiting, level⟩ := fitting
      obtain ⟨_, same⟩ := Context.dispatch_done (by simp) dispatched
      have whole := (Activation.sameLevel_step stepped).trans same
      have waits := Activation.waits_step sound stepped
      refine ⟨List.forall_mem_cons.mpr ⟨waits, waiting⟩, ?_⟩
      rwa [whole.callDepth, whole.settings]
  | leave stepped | fail stepped =>
      obtain ⟨_, waiting, level⟩ := fitting
      have same := Activation.sameLevel_step stepped
      rw [← same.callDepth, ← same.settings] at level
      exact ⟨waiting, Nat.le_trans (Nat.sub_le _ 1) level⟩
  | resume received =>
      obtain ⟨waiting, level⟩ := fitting
      obtain ⟨waits, others⟩ := List.forall_mem_cons.mp waiting
      exact ⟨Activation.sound_receive waits.toSound received, others, level⟩
  | unwind received =>
      obtain ⟨waiting, level⟩ := fitting
      exact ⟨(List.forall_mem_cons.mp waiting).2, Nat.le_trans (Nat.sub_le _ 1) level⟩

/-- So does a run. -/
theorem Reaches.fitting {start : Phase} (reached : Reaches start after) (fitting : start.Fitting) :
    after.Fitting := by
  induction reached with
  | refl => exact fitting
  | tail _ next ih => exact next.fitting ih

/-- A fault arises. -/
inductive Raises : Phase → Fault → Prop where
  /-- In an instruction. -/
  | instruction {context after : Context} {activation moved : Activation}
      {callers : List Activation} {failure : Failure}
      (stepped : activation.step context = (.error failure, after, moved)) :
      Raises (.running ⟨context, activation, callers⟩) failure.cause
  /-- In a call that fails at once. -/
  | call {context middle after : Context} {activation moved : Activation}
      {callers : List Activation} {callee : Value} {arguments : List Value} {fault : Fault}
      (stepped : activation.step context = (.ok (.call callee arguments), middle, moved))
      (dispatched : middle.dispatch callee arguments = (.error fault, after)) :
      Raises (.running ⟨context, activation, callers⟩) fault
  /-- In taking the value of a call. -/
  | delivery {context : Context} {caller : Activation} {callers : List Activation}
      {value : Value} {failure : Failure} (received : caller.receive (.ok value) = .error failure) :
      Raises (.delivering context (caller :: callers) (.ok value)) failure.cause

/-- An operand stack is about to overflow: an instruction adds a value to it, or the
arguments of a call do not fit on a new one. -/
inductive Overflows (limit : Nat) : Phase → Prop where
  | instruction {context : Context} {activation : Activation} {callers : List Activation}
      {instruction : Instruction} {next : Nat}
      (decoded : Instruction.decode activation.function.code activation.pc =
        .ok (instruction, next))
      (grows : instruction.grows = true) :
      Overflows limit (.running ⟨context, activation, callers⟩)
  | arguments {context middle : Context} {activation moved : Activation}
      {callers : List Activation} {callee : Value} {arguments : List Value}
      (stepped : activation.step context = (.ok (.call callee arguments), middle, moved))
      (overflow : middle.ArgumentsOverflow callee arguments limit) :
      Overflows limit (.running ⟨context, activation, callers⟩)

/-- When operand stacks keep to their sizes, an overflow has one of the two causes. -/
theorem Fitting.overflows {phase : Phase} {limit : Nat} (fitting : phase.Fitting)
    (raises : phase.Raises (.stackDepthExceeded limit)) : phase.Overflows limit := by
  generalize overflow : Fault.stackDepthExceeded limit = fault at raises
  cases raises with
  | instruction stepped =>
      obtain ⟨instruction, next, decoded, grows⟩ :=
        Activation.grows_of_overflow fitting.1 stepped overflow.symm
      exact .instruction decoded grows
  | call stepped dispatched =>
      subst overflow
      exact .arguments stepped (Context.argumentsOverflow_of_dispatch dispatched)
  | @delivery _ _ _ value _ received =>
      obtain ⟨resumed, taken⟩ := (List.forall_mem_cons.mp fitting.1).1.receives value
      rw [taken] at received
      cases received

/-- A failure that is handed on has arisen somewhere before. -/
theorem Reaches.raises {context : Context} {waiting : List Activation}
    {failure : Failure} {machine : Machine}
    (reached : Reaches (.running machine) (.delivering context waiting (.error failure))) :
    ∃ phase, Reaches (.running machine) phase ∧ phase.Raises failure.cause := by
  generalize last : Phase.delivering context waiting (.error failure) = phase at reached
  induction reached generalizing context waiting failure with
  | refl => cases last
  | tail earlier next ih =>
      cases next with
      | refuse stepped dispatched =>
          cases last
          exact ⟨_, earlier, .call stepped dispatched⟩
      | fail stepped =>
          cases last
          exact ⟨_, earlier, .instruction stepped⟩
      | unwind received =>
          cases last
          obtain ⟨given, rfl, same⟩ | ⟨value, rfl, full⟩ := Activation.receive_eq_error received
          · rw [same]
            exact ih rfl
          · exact ⟨_, earlier, .delivery received⟩
      | proceed | enter | answer | leave | resume => cases last

/-- The activations that wait for a result. -/
def suspended : Phase → List Activation
  | .running machine => machine.callers
  | .delivering _ waiting _ => waiting

/-- The invariant of a machine that was started with `entry` live activations. -/
structure Sound (entry : Nat) (phase : Phase) : Prop where
  depth_le : ∀ activation ∈ phase.live, activation.stack.depth ≤ activation.stack.highWater
  highWater_le : ∀ activation ∈ phase.live,
    activation.stack.highWater ≤ activation.function.maxDepth
  room : ∀ activation ∈ phase.suspended, activation.stack.depth < activation.function.maxDepth
  receives : ∀ activation ∈ phase.suspended, ∀ value, ∃ resumed,
    activation.receive (.ok value) = .ok resumed
  ordered : phase.live.Pairwise fun inner outer => outer.base ≤ inner.base
  base_le : ∀ activation ∈ phase.live, activation.base ≤ phase.context.memory.env.bindingDepth
  callDepth : phase.context.callDepth = entry + phase.live.length
  callDepth_le : phase.context.callDepth ≤ phase.context.settings.maxCallDepth

/-- Every live activation has a sound operand stack. -/
theorem Fitting.live {phase : Phase} (fitting : phase.Fitting) :
    ∀ activation ∈ phase.live, activation.Sound := by
  cases phase with
  | running machine =>
      exact List.forall_mem_cons.mpr ⟨fitting.1, fun caller waits =>
        (fitting.2.1 caller waits).toSound⟩
  | delivering context waiting result => exact fun caller waits => (fitting.1 caller waits).toSound

/-- Every activation that waits has room for the result. -/
theorem Fitting.suspended {phase : Phase} (fitting : phase.Fitting) :
    ∀ activation ∈ phase.suspended, activation.Waits := by
  cases phase with
  | running machine => exact fitting.2.1
  | delivering context waiting result => exact fitting.1

/-- There are no more activations than the limit allows. -/
theorem Fitting.callDepth_le {phase : Phase} (fitting : phase.Fitting) :
    phase.context.callDepth ≤ phase.context.settings.maxCallDepth := by
  cases phase with
  | running machine => exact fitting.2.2
  | delivering context waiting result => exact fitting.2

/-- The invariant follows from the sizes and the order of the activations. -/
theorem Fitting.sound {phase : Phase} {floor entry : Nat} (fitting : phase.Fitting)
    (orderly : Orderly floor entry phase.context phase.live) : phase.Sound entry where
  depth_le activation isLive := (fitting.live activation isLive).stack.depth_le
  highWater_le activation isLive := by
    have sound := fitting.live activation isLive
    rw [← sound.maxDepth]
    exact sound.stack.highWater_le
  room activation waits := (fitting.suspended activation waits).room
  receives activation waits := (fitting.suspended activation waits).receives
  ordered := orderly.nested.ordered
  base_le := orderly.nested.base_le
  callDepth := orderly.callDepth
  callDepth_le := fitting.callDepth_le

end Machine.Phase

namespace Context

variable {context : Context} {callee : Value} {arguments : List Value}

/-- The machine that a call starts, or a call of a function by its address. -/
inductive Starts (context : Context) (callee : Value) (arguments : List Value) :
    Machine → Prop where
  | call {activation : Activation} {started : Context}
      (dispatched : context.dispatch callee arguments = (.ok (.activation activation), started)) :
      Starts context callee arguments { context := started, activation }
  | invoke {address : Address} {activation : Activation} {started : Context}
      (addressed : callee = .function address)
      (begun : (context.count Statistics.recordCall).activate callee
        (context.memory.heap.function address) arguments = (.ok activation, started)) :
      Starts context callee arguments { context := started, activation }

/-- A machine is started by a call that begins an activation. -/
theorem Starts.dispatched {machine : Machine} (starts : context.Starts callee arguments machine) :
    ∃ activation started, machine = { context := started, activation } ∧
      context.dispatch callee arguments = (.ok (.activation activation), started) := by
  cases starts with
  | call dispatched => exact ⟨_, _, rfl, dispatched⟩
  | @invoke address _ _ addressed begun =>
      subst addressed
      exact ⟨_, _, rfl, by rw [dispatch_function, begun]⟩

/-- A property of contexts that lasts while machines run: instructions, calls and the ends of
activations keep it. -/
structure Lasting (property : Context → Prop) : Prop where
  step : ∀ {activation moved : Activation} {context after : Context}
    {result : Except Failure Flow}, property context →
    activation.step context = (result, after, moved) → property after
  dispatch : ∀ {context after : Context} {callee : Value} {arguments : List Value}
    {result : Except Fault Dispatch}, property context →
    context.dispatch callee arguments = (result, after) → property after
  exit : ∀ {context : Context}, property context → ∀ (base highWater : Nat) (failed : Bool),
    property (context.exit base highWater failed)

namespace Lasting

variable {property : Context → Prop}

/-- What lasts is kept by every transition. -/
theorem next {before after : Phase} (lasting : Lasting property) (next : Phase.Next before after)
    (holds : property before.context) : property after.context := by
  cases next with
  | proceed stepped onward => exact lasting.step holds stepped
  | enter stepped dispatched | answer stepped dispatched | refuse stepped dispatched =>
      exact lasting.dispatch (lasting.step holds stepped) dispatched
  | leave stepped | fail stepped => exact lasting.exit (lasting.step holds stepped) _ _ _
  | resume received => exact holds
  | unwind received => exact lasting.exit holds _ _ _

/-- What lasts is kept by every run. -/
theorem reaches {before after : Phase} (lasting : Lasting property)
    (reached : Phase.Reaches before after) (holds : property before.context) :
    property after.context := by
  induction reached with
  | refl => exact holds
  | tail _ next ih => exact lasting.next next ih

/-- What lasts holds of all that a machine reaches, if it holds where the machine is started. -/
theorem starts {machine : Machine} {phase : Phase} (lasting : Lasting property)
    (starts : context.Starts callee arguments machine)
    (reached : Phase.Reaches (.running machine) phase) (holds : property context) :
    property phase.context := by
  obtain ⟨activation, started, rfl, dispatched⟩ := starts.dispatched
  exact lasting.reaches reached (lasting.dispatch holds dispatched)

/-- What lasts is kept by every call, however it ends. -/
theorem call {fuel : Nat} {result : Result} {after : Context} (lasting : Lasting property)
    (called : context.call fuel callee arguments = some (result, after))
    (holds : property context) : property after := by
  cases Context.returned called with
  | answered dispatched | refused dispatched => exact lasting.dispatch holds dispatched
  | ended dispatched reached => exact lasting.reaches reached (lasting.dispatch holds dispatched)

end Lasting

/-- A machine that was just started satisfies the invariant. -/
theorem Starts.fitting {machine : Machine} (starts : context.Starts callee arguments machine) :
    (Phase.running machine).Fitting ∧
      Orderly context.memory.env.bindingDepth context.callDepth (Phase.running machine).context
        (Phase.running machine).live := by
  obtain ⟨activation, started, rfl, dispatched⟩ := starts.dispatched
  obtain ⟨_, room, settings, callDepth⟩ := dispatch_activation dispatched
  refine ⟨⟨sound_dispatch dispatched, List.forall_mem_nil _, ?_⟩, orderly_start dispatched⟩
  rw [callDepth, settings]
  exact room

/-- Everything that a started machine reaches is sound, and an operand stack overflows
only in the known ways. -/
theorem Starts.reaches {machine : Machine} {phase : Phase}
    (starts : context.Starts callee arguments machine)
    (reached : Phase.Reaches (.running machine) phase) :
    phase.Sound context.callDepth ∧
      ∀ limit, phase.Raises (.stackDepthExceeded limit) → phase.Overflows limit := by
  obtain ⟨fitting, orderly⟩ := starts.fitting
  have fits := reached.fitting fitting
  exact ⟨fits.sound (reached.orderly orderly).1, fun limit raises => fits.overflows raises⟩

/-- A call that ends with an overflow has met one on its way. -/
theorem overflow_of_call {fuel limit : Nat} {failure : Failure} {after : Context}
    (returned : context.call fuel callee arguments = some (.error failure, after))
    (overflow : failure.cause = .stackDepthExceeded limit) :
    context.ArgumentsOverflow callee arguments limit ∨
      ∃ machine phase, context.Starts callee arguments machine ∧
        Phase.Reaches (.running machine) phase ∧ phase.Overflows limit := by
  cases Context.returned returned with
  | ended dispatched ran =>
      have starts := Starts.call dispatched
      obtain ⟨phase, reached, raises⟩ := ran.raises
      rw [overflow] at raises
      exact .inr ⟨_, phase, starts, reached, (starts.reaches reached).2 limit raises⟩
  | refused dispatched =>
      cases overflow
      exact .inl (argumentsOverflow_of_dispatch dispatched)

/-- In a machine that was started by a call or an invocation every reachable phase is
sound, whatever the code of the functions. Operand stacks overflow only in an
instruction that adds a value, or where the arguments of a function with lexical
parameters are laid out; a call that fails with an overflow has met one of these. -/
theorem machine_invariant (context : Context) (callee : Value) (arguments : List Value) :
    (∀ machine phase, context.Starts callee arguments machine →
      Phase.Reaches (.running machine) phase →
      phase.Sound context.callDepth ∧
        ∀ limit, phase.Raises (.stackDepthExceeded limit) → phase.Overflows limit) ∧
    (∀ fuel failure after limit,
      (context.call fuel callee arguments = some (.error failure, after) ∨
        ∃ address, callee = .function address ∧
          context.invoke fuel address arguments = some (.error failure, after)) →
      failure.cause = .stackDepthExceeded limit →
      context.ArgumentsOverflow callee arguments limit ∨
        ∃ machine phase, context.Starts callee arguments machine ∧
          Phase.Reaches (.running machine) phase ∧ phase.Overflows limit) := by
  constructor
  · intro machine phase starts reached
    exact starts.reaches reached
  · intro fuel failure after limit returned overflow
    obtain returned | ⟨address, rfl, returned⟩ := returned
    · exact overflow_of_call returned overflow
    · rw [invoke_eq_call] at returned
      exact overflow_of_call returned overflow

/-- A context with a single function, whose code needs a slot that it does not declare. -/
def oneNarrowFunction : Context where
  memory.heap.functions := ⟨#[⟨.lexical ⟨0, 0, false⟩, #[192], #[.nil], 0, none, none⟩]⟩

/-- The operand stack of the function overflows in the course of the run, in a phase that
is sound. -/
theorem overflow_of_oneNarrowFunction :
    ∃ machine phase, oneNarrowFunction.Starts (.function 0) [] machine ∧
      Phase.Reaches (.running machine) phase ∧ phase.Sound 0 ∧ phase.Overflows 0 := by
  have fails : (oneNarrowFunction.call 1 (.function 0) []).bind (fun outcome =>
      outcome.1.casesOn (some ∘ Failure.cause) fun _ => none) = some (.stackDepthExceeded 0) := by
    decide +kernel
  obtain ⟨everywhere, onFailure⟩ := oneNarrowFunction.machine_invariant (.function 0) []
  rcases called : oneNarrowFunction.call 1 (.function 0) [] with _ | ⟨failure | value, after⟩
  · simp [called] at fails
  · rw [called] at fails
    obtain overflow | ⟨machine, phase, starts, reached, overflows⟩ :=
      onFailure 1 failure after 0 (.inl called) (Option.some.inj fails)
    · obtain ⟨_, _, resolved, lexical, raised⟩ := overflow
      cases resolved
      cases lexical
      cases raised
    · exact ⟨machine, phase, starts, reached, (everywhere machine phase starts reached).1,
        overflows⟩
  · simp [called] at fails

end Context

end ByteLisp
