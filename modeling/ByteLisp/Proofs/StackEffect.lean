import ByteLisp.Proofs.DataFaults
import ByteLisp.Proofs.Phases

/-!
# The effect of instructions on the operand stack

`Opcode.stackEffect` tells from the outside how an instruction changes the depth of
the operand stack. The instructions themselves are sequences of stack operations
and of operations on the memory. `ExecM.Regular` says of such a sequence how it
changes the depth and how much room it takes; it is built up operation by
operation, and in the end agrees with the table.
-/

namespace ByteLisp

/-- The stack has never held more values than it may, and holds no more than it has
held. -/
structure OperandStack.Sound (stack : OperandStack) : Prop where
  depth_le : stack.depth ≤ stack.highWater
  highWater_le : stack.highWater ≤ stack.maxDepth

namespace OperandStack

/-- Pushing does not change the size of the operand stack. -/
theorem maxDepth_push (value : Value) (stack : OperandStack) :
    (push value stack).2.maxDepth = stack.maxDepth := by
  simp only [push]
  split <;> rfl

/-- Pushing keeps the operand stack within its size. -/
theorem sound_push (value : Value) {stack : OperandStack} (sound : stack.Sound) :
    (push value stack).2.Sound := by
  have depth_le := sound.depth_le
  have highWater_le := sound.highWater_le
  simp only [push, depth] at depth_le ⊢
  split
  · constructor
    · simp only [depth, Array.size_push]
      omega
    · simp only
      omega
  · exact sound

end OperandStack

/-- Two contexts with the same settings and the same number of live activations. -/
structure Context.SameLevel (before after : Context) : Prop where
  settings : after.settings = before.settings
  callDepth : after.callDepth = before.callDepth

namespace Context.SameLevel

variable {before middle after : Context}

/-- A context is on its own level. -/
theorem refl (context : Context) : SameLevel context context :=
  ⟨rfl, rfl⟩

/-- What stays on the level step after step stays on it in all. -/
theorem trans (first : SameLevel before middle) (second : SameLevel middle after) :
    SameLevel before after :=
  ⟨second.settings.trans first.settings, second.callDepth.trans first.callDepth⟩

end Context.SameLevel

/-- A program that keeps to the rules of the operand stack. When it gives a value, the
depth has changed by what `change` has for that value; a value for which there is
nothing is not given. It runs out of room only where there is not room for `room` more
values. -/
structure ExecM.Regular {α : Type} (program : ExecM α) (change : α → Option Int) (room : Int) :
    Prop where
  level : ∀ running : Running, running.context.SameLevel (program running).2.context
  maxDepth : ∀ running : Running, (program running).2.stack.maxDepth = running.stack.maxDepth
  sound : ∀ running : Running, running.stack.Sound → (program running).2.stack.Sound
  depth : ∀ (running : Running) value after, program running = (.ok value, after) →
    ∃ shift, change value = some shift ∧ (after.stack.depth : Int) = running.stack.depth + shift
  fits : ∀ (running : Running) limit, (running.stack.depth : Int) + room ≤ running.stack.maxDepth →
    (program running).1 ≠ .error (.stackDepthExceeded limit)

namespace ExecM

variable {α β : Type}

/-- What stays the same whether the program gives a value or fails. -/
theorem Regular.keeps {program : ExecM α} {change : α → Option Int} {room : Int}
    {running after : Running} {outcome : Except Fault α} (regular : Regular program change room)
    (ran : program running = (outcome, after)) :
    running.context.SameLevel after.context ∧ after.stack.maxDepth = running.stack.maxDepth ∧
      (running.stack.Sound → after.stack.Sound) := by
  have level := regular.level running
  have maxDepth := regular.maxDepth running
  have sound := regular.sound running
  rw [ran] at level maxDepth sound
  exact ⟨level, maxDepth, sound⟩

/-- A program that does nothing leaves the depth as it is. -/
theorem regular_pure {change : α → Option Int} {room : Int} (value : α)
    (same : change value = some 0) :
    Regular (pure value) change room where
  level _ := .refl _
  maxDepth _ := rfl
  sound _ sound := sound
  depth running other after returned := by
    cases returned
    exact ⟨0, same, by simp⟩
  fits _ _ _ failed := by cases failed

/-- The rest of a sequence starts from the depth that its first part has left. -/
theorem regular_bind {program : ExecM α} {rest : α → ExecM β} {shift room : Int}
    {change : β → Option Int} (first : Regular program (fun _ => some shift) room)
    (next : ∀ value, Regular (rest value) (fun result => (change result).map (· - shift))
      (room - shift)) :
    Regular (program >>= rest) change room where
  level running := by
    have before := first.level running
    rw [run_bind]
    rcases ran : program running with ⟨fault | value, middle⟩
    · rwa [ran] at before
    · rw [ran] at before
      exact before.trans ((next value).level middle)
  maxDepth running := by
    have before := first.maxDepth running
    rw [run_bind]
    rcases ran : program running with ⟨fault | value, middle⟩
    · rwa [ran] at before
    · rw [ran] at before
      exact ((next value).maxDepth middle).trans before
  sound running sound := by
    have before := first.sound running sound
    rw [run_bind]
    rcases ran : program running with ⟨fault | value, middle⟩
    · rwa [ran] at before
    · rw [ran] at before
      exact (next value).sound middle before
  depth running result after returned := by
    rw [run_bind] at returned
    rcases ran : program running with ⟨fault | value, middle⟩
    · rw [ran] at returned
      cases returned
    · rw [ran] at returned
      obtain ⟨_, ⟨⟩, before⟩ := first.depth running value middle ran
      obtain ⟨difference, further, behind⟩ := (next value).depth middle result after returned
      obtain ⟨total, given, rfl⟩ := Option.map_eq_some_iff.1 further
      exact ⟨total, given, by omega⟩
  fits running limit enough := by
    have before := first.fits running limit enough
    rw [run_bind]
    rcases ran : program running with ⟨fault | value, middle⟩
    · rw [ran] at before
      intro failed
      cases failed
      exact before rfl
    · have kept := first.maxDepth running
      obtain ⟨_, ⟨⟩, shifted⟩ := first.depth running value middle ran
      rw [ran] at kept
      refine (next value).fits middle limit ?_
      simp only at kept
      omega

/-- A stack operation works on the operand stack alone. -/
theorem regular_onStack {operation : StackM α} {shift room : Int}
    (maxDepth : ∀ stack, (operation stack).2.maxDepth = stack.maxDepth)
    (sound : ∀ stack, stack.Sound → (operation stack).2.Sound)
    (depth : ∀ stack value after, operation stack = (.ok value, after) →
      (after.depth : Int) = stack.depth + shift)
    (fits : ∀ stack limit, (stack.depth : Int) + room ≤ stack.maxDepth →
      (operation stack).1 ≠ .error (.stackDepthExceeded limit)) :
    Regular (onStack operation) (fun _ => some shift) room where
  level _ := .refl _
  maxDepth running := maxDepth running.stack
  sound running := sound running.stack
  depth running value after returned := by
    obtain ⟨context, stack⟩ := running
    rcases ran : operation stack with ⟨result, left⟩
    simp only [onStack, ran] at returned
    cases returned
    exact ⟨shift, rfl, depth stack value left ran⟩
  fits running := fits running.stack

/-- Pushing adds one value, where there is room for it. -/
theorem regular_push {room : Int} (enough : 1 ≤ room) (value : Value) :
    Regular (push value) (fun _ => some 1) room := by
  apply regular_onStack (OperandStack.maxDepth_push value)
    (fun _ => OperandStack.sound_push value)
  · intro stack _ after pushed
    simp only [OperandStack.push] at pushed
    split at pushed
    · cases pushed
      simp [OperandStack.depth]
    · cases pushed
  · intro stack limit space
    simp only [OperandStack.push]
    split
    · simp
    · rename_i full
      simp only [OperandStack.depth] at space
      omega

/-- A stack operation that adds no values: it either fails and leaves the stack as it
was, or changes nothing but the slots and leaves no more of them. -/
theorem regular_shrinking {operation : StackM α} {shift room : Int}
    (outcome : ∀ stack,
      (∃ fault, (∀ limit, fault ≠ .stackDepthExceeded limit) ∧
        operation stack = (.error fault, stack)) ∨
      ∃ value slots, operation stack = (.ok value, { stack with slots }) ∧
        (slots.size : Int) = stack.depth + shift ∧ slots.size ≤ stack.depth) :
    Regular (onStack operation) (fun _ => some shift) room := by
  apply regular_onStack
  · intro stack
    obtain ⟨fault, _, ran⟩ | ⟨value, slots, ran, _, _⟩ := outcome stack <;> rw [ran]
  · intro stack sound
    obtain ⟨fault, _, ran⟩ | ⟨value, slots, ran, _, fewer⟩ := outcome stack <;> rw [ran]
    · exact sound
    · exact ⟨Nat.le_trans fewer sound.depth_le, sound.highWater_le⟩
  · intro stack result after returned
    obtain ⟨fault, _, ran⟩ | ⟨value, slots, ran, size, _⟩ := outcome stack <;> rw [ran] at returned
    · cases returned
    · cases returned
      exact size
  · intro stack limit _
    obtain ⟨fault, other, ran⟩ | ⟨value, slots, ran, _, _⟩ := outcome stack <;> rw [ran]
    · intro overflow
      exact other limit (Except.error.inj overflow)
    · simp

/-- Popping takes one value. -/
theorem regular_pop {room : Int} : Regular pop (fun _ => some (-1)) room := by
  refine regular_shrinking fun stack => ?_
  simp only [OperandStack.pop]
  split
  · rename_i value found
    have holds : stack.slots.size ≠ 0 := by
      intro none
      simp [Array.back?, none] at found
    refine .inr ⟨value, stack.slots.pop, rfl, ?_, ?_⟩ <;>
      simp only [OperandStack.depth, Array.size_pop] <;> omega
  · exact .inl ⟨.stackUnderflow, by simp, rfl⟩

/-- Popping several values takes as many. -/
theorem regular_popMany {room : Int} (count : Nat) :
    Regular (onStack (OperandStack.popMany count)) (fun _ => some (-count)) room := by
  refine regular_shrinking fun stack => ?_
  simp only [OperandStack.popMany]
  split
  · refine .inr ⟨_, stack.slots.shrink (stack.slots.size - count), rfl, ?_, ?_⟩ <;>
      simp only [OperandStack.depth, Array.size_shrink] <;> omega
  · exact .inl ⟨.stackUnderflow, by simp, rfl⟩

/-- Dropping several values takes as many. -/
theorem regular_dropMany {room : Int} (count : Nat) :
    Regular (onStack (OperandStack.dropMany count)) (fun _ => some (-count)) room := by
  refine regular_shrinking fun stack => ?_
  simp only [OperandStack.dropMany]
  split
  · refine .inr ⟨_, stack.slots.shrink (stack.slots.size - count), rfl, ?_, ?_⟩ <;>
      simp only [OperandStack.depth, Array.size_shrink] <;> omega
  · exact .inl ⟨.stackUnderflow, by simp, rfl⟩

/-- Looking at a slot takes nothing. -/
theorem regular_peek {room : Int} (slot : Nat) :
    Regular (onStack (OperandStack.peek slot)) (fun _ => some 0) room := by
  refine regular_shrinking fun stack => ?_
  simp only [OperandStack.peek]
  split
  · exact .inr ⟨_, stack.slots, rfl, by simp [OperandStack.depth], Nat.le_refl _⟩
  · exact .inl ⟨.stackSlotOutOfRange slot stack.slots.size, by simp, rfl⟩

/-- Setting a slot takes nothing. -/
theorem regular_set {room : Int} (slot : Nat) (value : Value) :
    Regular (onStack (OperandStack.set slot value)) (fun _ => some 0) room := by
  refine regular_shrinking fun stack => ?_
  simp only [OperandStack.set]
  split
  · refine .inr ⟨_, stack.slots.setIfInBounds (stack.slots.size - 1 - slot) value, rfl, ?_, ?_⟩ <;>
      simp [OperandStack.depth]
  · exact .inl ⟨.stackSlotOutOfRange slot stack.slots.size, by simp, rfl⟩

/-- An action that never complains about the depth of an operand stack. -/
theorem regular_perform {action : Action α} {room : Int}
    (fits : ∀ memory limit, (action memory).1 ≠ .error (.stackDepthExceeded limit)) :
    Regular (perform action) (fun _ => some 0) room where
  level _ := ⟨rfl, rfl⟩
  maxDepth _ := rfl
  sound _ sound := sound
  depth running value after returned := by
    rw [← congrArg (fun outcome => outcome.2.stack) returned]
    exact ⟨0, rfl, by simp [perform]⟩
  fits running limit _ := fits running.context.memory limit

/-- A fault that lies in the data is not about the depth of an operand stack. -/
theorem regular_performData {action : Action α} {room : Int} (raises : RaisesData action) :
    Regular (perform action) (fun _ => some 0) room := by
  refine regular_perform fun memory limit failed => ?_
  have ofData := raises memory (.stackDepthExceeded limit) failed
  cases ofData

/-- Counting does not touch the operand stack. -/
theorem regular_count {room : Int} (update : Statistics → Statistics) :
    Regular (count update) (fun _ => some 0) room where
  level _ := ⟨rfl, rfl⟩
  maxDepth _ := rfl
  sound _ sound := sound
  depth running value after returned := by
    cases returned
    exact ⟨0, rfl, by simp⟩
  fits _ _ _ failed := by cases failed

end ExecM

namespace Execute

open ExecM

variable {change : Flow → Option Int} {room : Int}

/-- One operand is replaced by the result. -/
theorem regular_unary {operation : Value → Action Value}
    (raises : ∀ x, RaisesData (operation x)) (falls : change .next = some 0) (enough : 0 ≤ room) :
    Regular (unary operation) change room := by
  refine regular_bind regular_pop fun x => ?_
  refine regular_bind (regular_performData (raises x)) fun result => ?_
  refine regular_bind (regular_push (by omega) result) fun _ => ?_
  exact regular_pure _ (by simp [falls])

/-- Two operands are replaced by the result. -/
theorem regular_binary {operation : Value → Value → Action Value}
    (raises : ∀ a b, RaisesData (operation a b)) (falls : change .next = some (-1))
    (enough : 0 ≤ room) : Regular (binary operation) change room := by
  refine regular_bind regular_pop fun b => ?_
  refine regular_bind regular_pop fun a => ?_
  refine regular_bind (regular_performData (raises a b)) fun result => ?_
  refine regular_bind (regular_push (by omega) result) fun _ => ?_
  exact regular_pure _ (by simp [falls])

/-- Three operands are replaced by the result. -/
theorem regular_ternary {operation : Value → Value → Value → Action Value}
    (raises : ∀ a b c, RaisesData (operation a b c)) (falls : change .next = some (-2))
    (enough : 0 ≤ room) : Regular (ternary operation) change room := by
  refine regular_bind regular_pop fun c => ?_
  refine regular_bind regular_pop fun b => ?_
  refine regular_bind regular_pop fun a => ?_
  refine regular_bind (regular_performData (raises a b c)) fun result => ?_
  refine regular_bind (regular_push (by omega) result) fun _ => ?_
  exact regular_pure _ (by simp [falls])

/-- A counted number of operands is replaced by the result. -/
theorem regular_variadic {count : Nat} {operation : List Value → Action Value}
    (raises : ∀ items, RaisesData (operation items))
    (falls : change .next = some (1 - (count : Int))) (enough : 1 - count ≤ room) :
    Regular (variadic count operation) change room := by
  refine regular_bind (regular_popMany count) fun items => ?_
  refine regular_bind (regular_performData (raises items)) fun result => ?_
  refine regular_bind (regular_push (by omega) result) fun _ => ?_
  exact regular_pure _ (by simp [falls])

/-- The items are replaced by their list. -/
theorem regular_list {count : Nat} (falls : change .next = some (1 - (count : Int)))
    (enough : 1 - count ≤ room) : Regular (list count) change room :=
  regular_variadic (fun _ => by simp) falls enough

/-- The parts are replaced by their string. -/
theorem regular_concat {count : Nat} (falls : change .next = some (1 - (count : Int)))
    (enough : 1 - count ≤ room) : Regular (concat count) change room :=
  regular_variadic (fun _ => by simp) falls enough

/-- A conditional jump takes the value that it looks at, on both ways. -/
theorem regular_jumpIf {wanted : Value → Bool} {target : Nat} (falls : change .next = some (-1))
    (taken : change (.jump target) = some (-1)) : Regular (jumpIf wanted target) change room := by
  refine regular_bind regular_pop fun value => ?_
  split
  · exact regular_pure _ (by simp [taken])
  · exact regular_pure _ (by simp [falls])

/-- This one takes the value only when it does not jump. -/
theorem regular_jumpElsePop {wanted : Value → Bool} {target : Nat}
    (falls : change .next = some (-1)) (taken : change (.jump target) = some 0) :
    Regular (jumpElsePop wanted target) change room := by
  refine regular_bind (regular_peek 0) fun value => ?_
  split
  · exact regular_pure _ (by simp [taken])
  · refine regular_bind regular_pop fun _ => ?_
    exact regular_pure _ (by simp [falls])

/-- A copy of a slot adds one value, where there is room for it. -/
theorem regular_copy {slot : Nat} (falls : change .next = some 1) (enough : 1 ≤ room) :
    Regular (copy slot) change room := by
  refine regular_bind (regular_peek slot) fun value => ?_
  refine regular_bind (regular_push (by omega) value) fun _ => ?_
  exact regular_pure _ (by simp [falls])

/-- As many values are taken as the low seven bits say. -/
theorem regular_discard {operand : Nat}
    (falls : change .next = some (-((operand % 128 : Nat) : Int))) :
    Regular (discard operand) change room := by
  have dropped : ∀ room, Regular (onStack (OperandStack.dropMany (operand % 128)) >>= fun _ =>
      pure Flow.next) change room := fun room =>
    regular_bind (regular_dropMany _) fun _ => regular_pure _ (by
      simp only [falls, Option.map_some, Option.some.injEq]
      omega)
  unfold discard
  dsimp only
  split
  · refine regular_bind (regular_peek 0) fun top => ?_
    refine regular_bind (regular_set _ top) fun _ => ?_
    simpa using dropped _
  · exact dropped room

/-- The value that is stored is taken. -/
theorem regular_store {slot : Nat} (falls : change .next = some (-1)) :
    Regular (store slot) change room := by
  refine regular_bind regular_pop fun value => ?_
  dsimp only
  split
  · refine regular_bind (regular_set _ value) fun _ => ?_
    exact regular_pure _ (by simp [falls])
  · exact regular_pure _ (by simp [falls])

/-- The value that is bound is taken. -/
theorem regular_bindSymbol {symbol : Symbol} (falls : change .next = some (-1)) :
    Regular (Execute.bind symbol) change room := by
  refine regular_bind regular_pop fun value => ?_
  refine regular_bind (regular_performData (Action.raisesData_onEnv
    (Environment.raisesData_bind symbol value))) fun _ => ?_
  refine regular_bind (regular_count _) fun _ => ?_
  exact regular_pure _ (by simp [falls])

/-- Undoing bindings does not touch the operand stack. -/
theorem regular_unbind {base requested : Nat} (falls : change .next = some 0) :
    Regular (unbind base requested) change room := by
  refine regular_bind (regular_perform fun memory limit => ?_) fun _ => ?_
  · simp only [run_bind, Action.ask]
    split
    · intro failed
      cases failed
    · unfold Action.onEnv Environment.unbind
      by_cases enough : requested ≤ memory.env.bindingDepth <;> simp [enough]
  · refine regular_bind (regular_count _) fun _ => ?_
    exact regular_pure _ (by simp [falls])

/-- A question about one operand is replaced by its answer. -/
theorem regular_look1 {operation : Heap → Value → Except Fault Value}
    (blames : ∀ heap x, BlamesData (operation heap x)) (falls : change .next = some 0)
    (enough : 0 ≤ room) : Regular (look1 operation) change room :=
  regular_unary (fun x => Action.raisesData_look fun heap => blames heap x) falls enough

/-- A question about two operands is replaced by its answer. -/
theorem regular_look2 {operation : Heap → Value → Value → Except Fault Value}
    (blames : ∀ heap a b, BlamesData (operation heap a b)) (falls : change .next = some (-1))
    (enough : 0 ≤ room) : Regular (look2 operation) change room :=
  regular_binary (fun a b => Action.raisesData_look fun heap => blames heap a b) falls enough

/-- A test of one operand is replaced by its outcome. -/
theorem regular_test {predicate : Value → Bool} (falls : change .next = some 0)
    (enough : 0 ≤ room) : Regular (test predicate) change room :=
  regular_unary (fun _ => raisesData_pure _) falls enough

/-- Arithmetic on one operand leaves the result in its place. -/
theorem regular_arithmetic1 {operation : Value → Except Fault Value}
    (blames : ∀ x, BlamesData (operation x)) (falls : change .next = some 0) (enough : 0 ≤ room) :
    Regular (arithmetic1 operation) change room :=
  regular_unary (fun x => Action.raisesData_ofExcept (blames x)) falls enough

/-- Arithmetic on two operands leaves the result in their place. -/
theorem regular_arithmetic2 {operation : Value → Value → Except Fault Value}
    (blames : ∀ a b, BlamesData (operation a b)) (falls : change .next = some (-1))
    (enough : 0 ≤ room) : Regular (arithmetic2 operation) change room :=
  regular_binary (fun a b => Action.raisesData_ofExcept (blames a b)) falls enough

/-- A missing constant is not reported as an overflow. -/
theorem constant_ne_stackDepthExceeded (constants : Array Value) (index limit : Nat) :
    constant constants index ≠ .error (.stackDepthExceeded limit) := by
  unfold constant
  split <;> simp

/-- Reading a constant does not touch the operand stack. -/
theorem regular_constant {constants : Array Value} {index : Nat} :
    Regular (perform (Action.ofExcept (constant constants index))) (fun _ => some 0) room :=
  regular_perform fun _ limit => constant_ne_stackDepthExceeded constants index limit

/-- Neither does reading one that must be a symbol. -/
theorem regular_constantSymbol {constants : Array Value} {index : Nat} :
    Regular (perform (Action.ofExcept (constantSymbol constants index))) (fun _ => some 0)
      room := by
  refine regular_perform fun _ limit failed => ?_
  have other := constant_ne_stackDepthExceeded constants index limit
  simp only [Action.ofExcept, constantSymbol] at failed
  cases found : constant constants index with
  | error fault =>
      rw [found] at failed other
      cases failed
      exact other rfl
  | ok value =>
      rw [found] at failed
      have ofData := value.blamesData_expectSymbol (.stackDepthExceeded limit) failed
      cases ofData

end Execute

/-- The change in the depth of the operand stack that goes with a way to go on. The
result of a call is not on the stack yet. -/
def Opcode.depthChange (opcode : Opcode) (operand : UInt16) : Flow → Option Int
  | .call _ _ => if opcode = .call then some (opcode.stackEffect operand - 1) else none
  | .jump _ =>
    if opcode = .gotoIfNilElsePop ∨ opcode = .gotoIfNotNilElsePop then some 0
    else some (opcode.stackEffect operand)
  | .next | .leave _ => some (opcode.stackEffect operand)

namespace Execute

open ExecM

/-- Every instruction changes the depth of the operand stack as the table says, and
takes no more room than that. -/
theorem regular_operation (constants : Array Value) (base : Nat) (opcode : Opcode)
    (operand : UInt16) :
    Regular (operation constants base opcode operand) (opcode.depthChange operand)
      (max 0 (opcode.stackEffect operand)) := by
  have positive : 0 ≤ max 0 (opcode.stackEffect operand) := Int.le_max_left _ _
  cases opcode with
  | stackRef => exact regular_copy rfl (Int.le_refl _)
  | dup => exact regular_copy rfl (Int.le_refl _)
  | varRef =>
      refine regular_bind regular_constantSymbol fun symbol => ?_
      refine regular_bind (regular_performData (Action.raisesData_ask fun env =>
        env.blamesData_symbolValue symbol)) fun value => ?_
      refine regular_bind (regular_push (Int.le_refl _) value) fun _ => ?_
      exact regular_pure _ rfl
  | varSet =>
      refine regular_bind regular_constantSymbol fun symbol => ?_
      refine regular_bind regular_pop fun value => ?_
      refine regular_bind (regular_performData (Action.raisesData_onEnv
        (Environment.raisesData_setBound symbol value))) fun _ => ?_
      exact regular_pure _ rfl
  | varBind =>
      refine regular_bind regular_constantSymbol fun symbol => ?_
      exact regular_bindSymbol rfl
  | call =>
      refine regular_bind (regular_popMany operand.toNat) fun arguments => ?_
      refine regular_bind regular_pop fun callee => ?_
      refine regular_pure _ ?_
      simp only [Opcode.depthChange, Opcode.stackEffect, if_true, Option.map_some,
        Option.some.injEq]
      omega
  | unbind => exact regular_unbind rfl
  | constant | constant2 =>
      refine regular_bind regular_constant fun value => ?_
      refine regular_bind (regular_push (Int.le_refl _) value) fun _ => ?_
      exact regular_pure _ rfl
  | goto => exact regular_pure _ rfl
  | gotoIfNil | gotoIfNotNil => exact regular_jumpIf rfl rfl
  | gotoIfNilElsePop | gotoIfNotNilElsePop => exact regular_jumpElsePop rfl rfl
  | ret =>
      refine regular_bind regular_pop fun value => ?_
      exact regular_pure _ rfl
  | discard =>
      refine regular_bind regular_pop fun _ => ?_
      exact regular_pure _ rfl
  | discardN => exact regular_discard rfl
  | stackSet | stackSet2 => exact regular_store rfl
  | car => exact regular_look1 Heap.blamesData_car rfl positive
  | cdr => exact regular_look1 Heap.blamesData_cdr rfl positive
  | carSafe | cdrSafe => exact regular_look1 (fun _ _ => blamesData_ok _) rfl positive
  | length => exact regular_look1 Sequences.blamesData_length rfl positive
  | nth => exact regular_look2 Lists.blamesData_nth rfl positive
  | nthcdr => exact regular_look2 Lists.blamesData_nthcdr rfl positive
  | elt => exact regular_look2 Sequences.blamesData_elt rfl positive
  | memq => exact regular_look2 Lists.blamesData_memq rfl positive
  | member => exact regular_look2 Lists.blamesData_member rfl positive
  | assq => exact regular_look2 Lists.blamesData_assq rfl positive
  | aref => exact regular_look2 Sequences.blamesData_aref rfl positive
  | stringEq => exact regular_look2 Sequences.blamesData_stringEq rfl positive
  | stringLess => exact regular_look2 Sequences.blamesData_stringLess rfl positive
  | equal => exact regular_look2 (fun _ _ _ => blamesData_ok _) rfl positive
  | symbolp | consp | stringp | listp | numberp | integerp | not =>
      exact regular_test rfl positive
  | add1 => exact regular_arithmetic1 (Arithmetic.blamesData_apply _ _ _ · _) rfl positive
  | sub1 => exact regular_arithmetic1 (Arithmetic.blamesData_apply _ _ _ · _) rfl positive
  | negate => exact regular_arithmetic1 Arithmetic.blamesData_negate rfl positive
  | plus | diff | mult =>
      exact regular_arithmetic2 (Arithmetic.blamesData_apply _ _ _) rfl positive
  | quo => exact regular_arithmetic2 Arithmetic.blamesData_quo rfl positive
  | rem => exact regular_arithmetic2 Arithmetic.blamesData_rem rfl positive
  | max | min => exact regular_arithmetic2 (Arithmetic.blamesData_pick _) rfl positive
  | numEq | greater | less | lessEq | greaterEq =>
      exact regular_arithmetic2 (Arithmetic.blamesData_holds _) rfl positive
  | cons => exact regular_binary (fun _ _ => by simp) rfl positive
  | nconc | setcar | setcdr => exact regular_binary (fun _ _ => by simp) rfl positive
  | eq => exact regular_binary (fun _ _ => raisesData_pure _) rfl positive
  | set => exact regular_binary Cells.raisesData_set rfl positive
  | fset => exact regular_binary Cells.raisesData_fset rfl positive
  | get => exact regular_binary Cells.raisesData_get rfl positive
  | nreverse | upcase | downcase =>
      exact regular_unary (fun _ => by simp [Sequences.upcase, Sequences.downcase]) rfl positive
  | symbolValue => exact regular_unary Cells.raisesData_symbolValue rfl positive
  | symbolFunction => exact regular_unary Cells.raisesData_symbolFunction rfl positive
  | aset | substring => exact regular_ternary (fun _ _ _ => by simp) rfl positive
  | list1 | list2 | list3 | list4 => exact regular_list rfl (by omega)
  | listN => exact regular_list rfl (Int.le_max_right _ _)
  | concat2 | concat3 | concat4 => exact regular_concat rfl (by omega)
  | concatN => exact regular_concat rfl (Int.le_max_right _ _)

end Execute

/-- Recording an instruction stays on the level. -/
theorem Context.sameLevel_recordInstruction (context : Context) (pc : Nat)
    (instruction : Instruction) (depth : Nat) :
    SameLevel context (context.recordInstruction pc instruction depth) := by
  unfold recordInstruction
  dsimp only
  split <;> exact ⟨rfl, rfl⟩

/-- An instruction stays on the level, whether it succeeds or fails. -/
theorem Activation.sameLevel_step {activation moved : Activation} {context after : Context}
    {result : Except Failure Flow} (ran : activation.step context = (result, after, moved)) :
    context.SameLevel after := by
  obtain ⟨rfl, rfl⟩ | ⟨instruction, next, outcome, place, left, decoded, executed, rfl, rfl⟩ :=
    step_effect ran
  · exact .refl _
  · obtain ⟨level, _⟩ := (Execute.regular_operation _ _ _ _).keeps executed
    exact (context.sameLevel_recordInstruction _ _ _).trans level

/-- A value that has been handed over stands on top of the operand stack. -/
theorem Activation.depth_receive {activation resumed : Activation} {result : Result}
    (received : activation.receive result = .ok resumed) :
    resumed.stack.depth = activation.stack.depth + 1 := by
  obtain ⟨value, _, _, rfl⟩ := receive_eq_ok received
  simp [OperandStack.depth]

/-- An instruction that succeeds changes the depth of the operand stack by its stack
effect. A call is counted with its result, a return with the value that it takes off.
A jump that keeps the value it has looked at leaves the depth as it is. -/
theorem Execute.depth_after_instruction (activation : Activation) (context : Context)
    (instruction : Instruction) (flow : Flow) (after : Running) :
    Execute.instruction activation.function.constants activation.base instruction
      ⟨context, activation.stack⟩ = (.ok flow, after) →
    match flow with
    | .call _ _ => ∀ value resumed,
        Activation.receive { activation with stack := after.stack } (.ok value) = .ok resumed →
        (resumed.stack.depth : Int) =
          activation.stack.depth + instruction.opcode.stackEffect instruction.operand
    | .jump _ =>
        if instruction.opcode = .gotoIfNilElsePop ∨ instruction.opcode = .gotoIfNotNilElsePop then
          after.stack.depth = activation.stack.depth
        else
          (after.stack.depth : Int) =
            activation.stack.depth + instruction.opcode.stackEffect instruction.operand
    | .next | .leave _ =>
        (after.stack.depth : Int) =
          activation.stack.depth + instruction.opcode.stackEffect instruction.operand := by
  intro executed
  obtain ⟨shift, given, changed⟩ := (Execute.regular_operation _ _ _ _).depth _ flow after executed
  cases flow with
  | next =>
      cases given
      exact changed
  | leave value =>
      cases given
      exact changed
  | jump target =>
      simp only [Opcode.depthChange] at given
      dsimp only
      split at given
      · rename_i keeps
        cases given
        rw [if_pos keeps]
        simp only at changed
        omega
      · rename_i pops
        cases given
        rwa [if_neg pops]
  | call callee arguments =>
      intro value resumed received
      have delivered := Activation.depth_receive received
      simp only [Opcode.depthChange] at given
      split at given
      · cases given
        simp only at changed delivered
        omega
      · cases given

/-- A call with one argument takes two values off and puts its result in their place. -/
theorem Execute.depth_after_call_of_one :
    Activation.receive
        { function := ⟨.lexical ⟨0, 0, false⟩, #[33], #[], 2, none, none⟩
          stack := { slots := #[], maxDepth := 2, highWater := 2 }
          base := 0 } (.ok .nil) =
      .ok
        { function := ⟨.lexical ⟨0, 0, false⟩, #[33], #[], 2, none, none⟩
          stack := { slots := #[.nil], maxDepth := 2, highWater := 2 }
          base := 0 } ∧
      ((1 : Nat) : Int) = (2 : Nat) + Opcode.stackEffect .call 1 :=
  ⟨rfl, Execute.depth_after_instruction
    { function := ⟨.lexical ⟨0, 0, false⟩, #[33], #[], 2, none, none⟩
      stack := { slots := #[.primitive .car, .nil], maxDepth := 2, highWater := 2 }
      base := 0 } {} ⟨.call, 1⟩ (.call (.primitive .car) [.nil])
    ⟨{}, { slots := #[], maxDepth := 2, highWater := 2 }⟩ rfl .nil _ rfl⟩

end ByteLisp
