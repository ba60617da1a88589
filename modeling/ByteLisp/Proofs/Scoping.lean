import ByteLisp.Proofs.Assignments
import ByteLisp.Proofs.StackEffect

/-!
# What instructions and calls do to bindings

An instruction undoes only bindings of its own activation, and passing arguments
undoes none. From the number of bindings that an activation started with, everything
that it does can therefore be undone again: only the symbols that it assigns may
come out different.
-/

namespace ByteLisp

open Environment

/-- All that the program does can be undone down to `floor` bindings, the symbols that
are not `kept` apart. -/
def Scoped {σ α : Type} (environment : σ → Environment) (floor : Nat) (kept : Symbol → Prop)
    (program : ExceptT Fault (StateM σ) α) : Prop :=
  ∀ state, floor ≤ (environment state).bindingDepth →
    Restores floor kept (environment state) (environment (program state).2)

/-- The environment of a running activation. -/
abbrev Running.env (running : Running) : Environment :=
  running.context.memory.env

section Sequences

variable {σ α β : Type} {environment : σ → Environment} {floor : Nat} {kept : Symbol → Prop}

/-- A program that does nothing restores everything. -/
theorem scoped_pure (value : α) :
    Scoped environment floor kept (pure value : ExceptT Fault (StateM σ) α) :=
  fun _ deep => .refl kept deep

/-- So does one that fails. -/
theorem scoped_throw (fault : Fault) :
    Scoped environment floor kept (throw fault : ExceptT Fault (StateM σ) α) :=
  fun _ deep => .refl kept deep

/-- Programs in a row restore what each of them restores. -/
theorem scoped_bind {program : ExceptT Fault (StateM σ) α}
    {rest : α → ExceptT Fault (StateM σ) β} (first : Scoped environment floor kept program)
    (next : ∀ value, Scoped environment floor kept (rest value)) :
    Scoped environment floor kept (program >>= rest) := by
  intro state deep
  have before := first state deep
  rw [run_bind]
  rcases ran : program state with ⟨fault | value, middle⟩
  · rwa [ran] at before
  · rw [ran] at before
    exact before.trans (next value middle before.deep)

/-- An action that keeps the cells restores them. -/
theorem scoped_keeps {action : Action α}
    (keeps : ∀ memory, Keeps kept memory.env (action memory).2.env) :
    Scoped Memory.env floor kept action :=
  fun memory deep => .of_keeps deep (keeps memory)

/-- A binding restores all cells: it remembers what it hides. -/
theorem scoped_bindEnv (symbol : Symbol) (value : Value) :
    Scoped Memory.env floor kept (Action.onEnv (Environment.bind symbol value)) :=
  fun _ deep => restores_bind kept deep symbol value

/-- The operand stack is not part of the environment. -/
theorem scoped_onStack (operation : StackM α) :
    Scoped Running.env floor kept (ExecM.onStack operation) :=
  fun _ deep => .refl kept deep

/-- Neither are the statistics. -/
theorem scoped_count (update : Statistics → Statistics) :
    Scoped Running.env floor kept (ExecM.count update) :=
  fun _ deep => .refl kept deep

/-- An action restores the same within an instruction. -/
theorem scoped_perform {action : Action α} (restores : Scoped Memory.env floor kept action) :
    Scoped Running.env floor kept (ExecM.perform action) :=
  fun running deep => restores running.context.memory deep

end Sequences

/-- What leaves the environment alone keeps every cell. -/
theorem LeavesEnvironment.keeps {α : Type} {action : Action α} (leaves : LeavesEnvironment action)
    (kept : Symbol → Prop) (memory : Memory) :
    Keeps kept memory.env (action memory).2.env := by
  rw [leaves memory]
  exact .refl kept memory.env

/-! ## Instructions -/

/-- The symbol whose value cell the instruction assigns. -/
def Instruction.assigned? (instruction : Instruction) (constants : Array Value)
    (stack : OperandStack) : Option Symbol :=
  match instruction.opcode with
  | .varSet => (Execute.constantSymbol constants instruction.operand.toNat).toOption
  | .set => (OperandStack.peek 1 stack).1.toOption.bind Value.symbol?
  | _ => none

namespace Execute

open ExecM

variable {floor : Nat} {kept : Symbol → Prop}

/-- What leaves the environment alone restores everything. -/
theorem scoped_leaving {α : Type} {action : Action α} (leaves : LeavesEnvironment action) :
    Scoped Running.env floor kept (perform action) :=
  scoped_perform (scoped_keeps (leaves.keeps kept))

/-- An instruction with one operand restores what its operation does. -/
theorem scoped_unary {operation : Value → Action Value}
    (leaves : ∀ x, LeavesEnvironment (operation x)) :
    Scoped Running.env floor kept (unary operation) :=
  scoped_bind (scoped_onStack _) fun x => scoped_bind (scoped_leaving (leaves x)) fun _ =>
    scoped_bind (scoped_onStack _) fun _ => scoped_pure _

/-- An instruction with two operands restores what its operation does. -/
theorem scoped_binary {operation : Value → Value → Action Value}
    (keeps : ∀ a b memory, Keeps kept memory.env (operation a b memory).2.env) :
    Scoped Running.env floor kept (binary operation) :=
  scoped_bind (scoped_onStack _) fun b => scoped_bind (scoped_onStack _) fun a =>
    scoped_bind (scoped_perform (scoped_keeps (keeps a b))) fun _ =>
      scoped_bind (scoped_onStack _) fun _ => scoped_pure _

/-- An instruction with three operands restores what its operation does. -/
theorem scoped_ternary {operation : Value → Value → Value → Action Value}
    (leaves : ∀ a b c, LeavesEnvironment (operation a b c)) :
    Scoped Running.env floor kept (ternary operation) :=
  scoped_bind (scoped_onStack _) fun c => scoped_bind (scoped_onStack _) fun b =>
    scoped_bind (scoped_onStack _) fun a => scoped_bind (scoped_leaving (leaves a b c)) fun _ =>
      scoped_bind (scoped_onStack _) fun _ => scoped_pure _

/-- An instruction with a counted number of operands restores what its operation does. -/
theorem scoped_variadic {count : Nat} {operation : List Value → Action Value}
    (leaves : ∀ items, LeavesEnvironment (operation items)) :
    Scoped Running.env floor kept (variadic count operation) :=
  scoped_bind (scoped_onStack _) fun items => scoped_bind (scoped_leaving (leaves items)) fun _ =>
    scoped_bind (scoped_onStack _) fun _ => scoped_pure _

/-- Copying a slot does nothing to the environment. -/
theorem scoped_copy (slot : Nat) : Scoped Running.env floor kept (copy slot) :=
  scoped_bind (scoped_onStack _) fun _ => scoped_bind (scoped_onStack _) fun _ => scoped_pure _

/-- Neither does a conditional jump. -/
theorem scoped_jumpIf (wanted : Value → Bool) (target : Nat) :
    Scoped Running.env floor kept (jumpIf wanted target) := by
  refine scoped_bind (scoped_onStack _) fun value => ?_
  split
  · exact scoped_pure _
  · exact scoped_pure _

/-- Neither does one that pops only when it does not jump. -/
theorem scoped_jumpElsePop (wanted : Value → Bool) (target : Nat) :
    Scoped Running.env floor kept (jumpElsePop wanted target) := by
  refine scoped_bind (scoped_onStack _) fun value => ?_
  split
  · exact scoped_pure _
  · exact scoped_bind (scoped_onStack _) fun _ => scoped_pure _

/-- Neither does discarding values. -/
theorem scoped_discard (operand : Nat) : Scoped Running.env floor kept (discard operand) := by
  have dropped : Scoped Running.env floor kept
      (onStack (OperandStack.dropMany (operand % 128)) >>= fun _ => pure Flow.next) :=
    scoped_bind (scoped_onStack _) fun _ => scoped_pure _
  unfold discard
  dsimp only
  split
  · exact scoped_bind (scoped_onStack _) fun _ => scoped_bind (scoped_onStack _) fun _ => dropped
  · exact dropped

/-- Neither does storing into a slot. -/
theorem scoped_store (slot : Nat) : Scoped Running.env floor kept (store slot) := by
  refine scoped_bind (scoped_onStack _) fun value => ?_
  dsimp only
  split
  · exact scoped_bind (scoped_onStack _) fun _ => scoped_pure _
  · exact scoped_pure _

/-- The instruction that binds restores all cells. -/
theorem scoped_bindSymbol (symbol : Symbol) :
    Scoped Running.env floor kept (Execute.bind symbol) :=
  scoped_bind (scoped_onStack _) fun value =>
    scoped_bind (scoped_perform (scoped_bindEnv symbol value)) fun _ =>
      scoped_bind (scoped_count _) fun _ => scoped_pure _

/-- Only as many bindings are undone as the activation has made. -/
theorem scoped_unbind {base : Nat} (above : floor ≤ base) (requested : Nat) :
    Scoped Running.env floor kept (unbind base requested) := by
  refine scoped_bind (scoped_perform fun memory deep => ?_) fun _ =>
    scoped_bind (scoped_count _) fun _ => scoped_pure _
  simp only [run_bind, Action.ask]
  split
  · exact .refl kept deep
  · rename_i available
    have enough : requested ≤ memory.env.bindingDepth := by omega
    simp only [Action.onEnv, Environment.unbind, enough, if_true]
    exact restores_undoMany kept (by omega)

/-- An operation on a constant that is a symbol. -/
theorem scoped_onConstant {constants : Array Value} {index : Nat} {rest : Symbol → ExecM Flow}
    (restores : ∀ symbol, constantSymbol constants index = .ok symbol →
      Scoped Running.env floor kept (rest symbol)) :
    Scoped Running.env floor kept
      (perform (Action.ofExcept (constantSymbol constants index)) >>= rest) := by
  intro running deep
  simp only [run_bind, perform, Context.perform, Action.ofExcept]
  cases found : constantSymbol constants index with
  | error fault => exact .refl kept deep
  | ok symbol => exact restores symbol found running deep

/-- Assigning changes the cell of one symbol. -/
theorem keeps_setBound (symbol : Symbol) (value : Value) (env : Environment) :
    Keeps (· ≠ symbol) env (Environment.setBound symbol value env).2 := by
  unfold Environment.setBound
  split
  · exact .refl _ env
  · split
    · exact keeps_store env symbol (some value)
    · exact .refl _ env

/-- An assignment of the symbol that is a constant. -/
theorem scoped_assign {constants : Array Value} {index : Nat} :
    Scoped Running.env floor
      (fun symbol => (constantSymbol constants index).toOption ≠ some symbol)
      (do
        let symbol ← perform (Action.ofExcept (constantSymbol constants index))
        let value ← pop
        perform (Action.onEnv (Environment.setBound symbol value))
        return Flow.next) := by
  refine scoped_onConstant fun symbol found => scoped_bind (scoped_onStack _) fun value =>
    scoped_bind (scoped_perform (scoped_keeps fun memory => ?_)) fun _ => scoped_pure _
  refine (keeps_setBound symbol value memory.env).mono fun other different same => different ?_
  rw [found, same]
  rfl

/-- Of all instructions only `varSet` and `set` assign a value cell. What `set` assigns
depends on the operand stack. -/
theorem scoped_operation {base : Nat} (above : floor ≤ base) (constants : Array Value)
    (opcode : Opcode) (operand : UInt16) (stack : OperandStack) (other : opcode ≠ .set) :
    Scoped Running.env floor
      (fun symbol => Instruction.assigned? ⟨opcode, operand⟩ constants stack ≠ some symbol)
      (operation constants base opcode operand) := by
  cases opcode with
  | set => exact absurd rfl other
  | varSet => exact scoped_assign
  | varBind => exact scoped_onConstant fun symbol _ => scoped_bindSymbol symbol
  | unbind => exact scoped_unbind above _
  | varRef =>
      exact scoped_onConstant fun symbol _ =>
        scoped_bind (scoped_leaving (leavesEnvironment_ask _)) fun _ =>
          scoped_bind (scoped_onStack _) fun _ => scoped_pure _
  | constant | constant2 =>
      exact scoped_bind (scoped_leaving (leavesEnvironment_ofExcept _)) fun _ =>
        scoped_bind (scoped_onStack _) fun _ => scoped_pure _
  | call =>
      exact scoped_bind (scoped_onStack _) fun _ => scoped_bind (scoped_onStack _) fun _ =>
        scoped_pure _
  | ret | discard => exact scoped_bind (scoped_onStack _) fun _ => scoped_pure _
  | goto => exact scoped_pure _
  | gotoIfNil | gotoIfNotNil => exact scoped_jumpIf _ _
  | gotoIfNilElsePop | gotoIfNotNilElsePop => exact scoped_jumpElsePop _ _
  | stackRef | dup => exact scoped_copy _
  | discardN => exact scoped_discard _
  | stackSet | stackSet2 => exact scoped_store _
  | fset => exact scoped_binary fun a b memory => Cells.keeps_fset _ memory a b
  | car | cdr | carSafe | cdrSafe | length | nreverse | symbolp | consp | stringp | listp
  | numberp | integerp | not | add1 | sub1 | negate | upcase | downcase | symbolValue
  | symbolFunction => exact scoped_unary fun _ => by simp
  | cons | nth | nthcdr | elt | memq | member | assq | nconc | setcar | setcdr | eq | equal
  | plus | diff | mult | quo | rem | max | min | numEq | greater | less | lessEq | greaterEq
  | aref | stringEq | stringLess | get =>
      exact scoped_binary fun _ _ => LeavesEnvironment.keeps (by simp) _
  | aset | substring => exact scoped_ternary fun _ _ _ => by simp
  | list1 | list2 | list3 | list4 | listN | concat2 | concat3 | concat4 | concatN =>
      exact scoped_variadic fun _ => by simp

/-- What was pushed last is popped first. -/
theorem pop_push (context : Context) (slots : Array Value) (value : Value)
    (maxDepth highWater : Nat) :
    pop ⟨context, slots.push value, maxDepth, highWater⟩ =
      (.ok value, ⟨context, slots, maxDepth, highWater⟩) := by
  simp [pop, onStack, OperandStack.pop]

/-- `set` assigns the symbol that lies below the top. -/
theorem restores_set {running : Running} (deep : floor ≤ running.env.bindingDepth)
    (operand : UInt16) (constants : Array Value) :
    Restores floor
      (fun symbol => Instruction.assigned? ⟨.set, operand⟩ constants running.stack ≠ some symbol)
      running.env (binary Cells.set running).2.env := by
  obtain ⟨context, slots, maxDepth, highWater⟩ := running
  by_cases empty : slots.size = 0
  · obtain rfl := Array.eq_empty_of_size_eq_zero empty
    exact .refl _ deep
  obtain ⟨rest, value, rfl⟩ := Array.eq_push_of_size_ne_zero empty
  by_cases single : rest.size = 0
  · obtain rfl := Array.eq_empty_of_size_eq_zero single
    exact .refl _ deep
  obtain ⟨rest, symbol, rfl⟩ := Array.eq_push_of_size_ne_zero single
  have second : ((rest.push symbol).push value)[rest.size]? = some symbol := by
    rw [Array.getElem?_push, if_neg (by simp), Array.getElem?_push_size]
  have below : Instruction.assigned? ⟨.set, operand⟩ constants
      ⟨(rest.push symbol).push value, maxDepth, highWater⟩ = symbol.symbol? := by
    simp only [Instruction.assigned?, OperandStack.peek, Array.size_push, Nat.add_sub_cancel,
      Array.getD_eq_getD_getElem?, second, Option.getD_some]
    rw [if_pos (by omega)]
    rfl
  have assigned : Scoped Running.env floor (fun other => symbol.symbol? ≠ some other)
      (perform (Cells.set symbol value) >>= fun result => push result >>= fun _ =>
        pure Flow.next) :=
    scoped_bind (scoped_perform (scoped_keeps (Cells.keeps_set · symbol value))) fun _ =>
      scoped_bind (scoped_onStack _) fun _ => scoped_pure _
  rw [below]
  unfold binary
  rw [run_bind, pop_push]
  dsimp only
  rw [run_bind, pop_push]
  exact assigned ⟨context, rest, maxDepth, highWater⟩ deep

/-- An instruction of an activation that started with `base` bindings. -/
theorem restores_instruction {base : Nat} (above : floor ≤ base) (running : Running)
    (deep : floor ≤ running.env.bindingDepth) (constants : Array Value)
    (instruction : Instruction) :
    Restores floor (fun symbol => instruction.assigned? constants running.stack ≠ some symbol)
      running.env (Execute.instruction constants base instruction running).2.env := by
  obtain ⟨opcode, operand⟩ := instruction
  by_cases isSet : opcode = .set
  · subst isSet
    exact restores_set deep operand constants
  · exact scoped_operation above constants opcode operand running.stack isSet running deep

end Execute

/-- Recording an instruction does nothing to the memory. -/
theorem Context.memory_recordInstruction (context : Context) (pc : Nat) (instruction : Instruction)
    (depth : Nat) : (context.recordInstruction pc instruction depth).memory = context.memory := by
  unfold recordInstruction
  dsimp only
  split <;> rfl

/-- The next instruction of the activation assigns the value cell of the symbol. -/
def Activation.Assigns (activation : Activation) (symbol : Symbol) : Prop :=
  ∃ instruction next,
    Instruction.decode activation.function.code activation.pc = .ok (instruction, next) ∧
      instruction.assigned? activation.function.constants activation.stack = some symbol

/-- An instruction restores all cells below its activation but the one that it assigns. -/
theorem Activation.restores_step {activation moved : Activation} {context after : Context}
    {result : Except Failure Flow} {floor : Nat} (above : floor ≤ activation.base)
    (deep : floor ≤ context.memory.env.bindingDepth)
    (ran : activation.step context = (result, after, moved)) :
    Restores floor (fun symbol => ¬ activation.Assigns symbol) context.memory.env
      after.memory.env := by
  obtain ⟨rfl, rfl⟩ | ⟨instruction, next, outcome, place, left, decoded, executed, rfl, rfl⟩ :=
    step_effect ran
  · exact .refl _ deep
  · rw [← context.memory_recordInstruction activation.pc instruction activation.stack.depth]
      at deep ⊢
    generalize context.recordInstruction activation.pc instruction activation.stack.depth =
      recorded at deep executed ⊢
    have restored := Execute.restores_instruction above ⟨recorded, activation.stack⟩ deep
      activation.function.constants instruction
    rw [executed] at restored
    exact restored.mono fun symbol spared assigned =>
      spared ⟨instruction, next, decoded, assigned⟩

/-! ## Calls -/

namespace Calling

variable {floor : Nat} {kept : Symbol → Prop}

/-- Binding names restores all cells. -/
theorem scoped_bindNames (names : List Symbol) (arguments : List Value) :
    Scoped Memory.env floor kept (bindNames names arguments) := by
  induction names generalizing arguments with
  | nil => exact scoped_pure _
  | cons name names ih => exact scoped_bind (scoped_bindEnv name _) fun _ => ih _

/-- Passing arguments by name restores all cells. -/
theorem scoped_bindDynamic (callee : Value) (list : ParameterList) (arguments : List Value) :
    Scoped Memory.env floor kept (bindDynamic callee list arguments) := by
  unfold bindDynamic
  dsimp only
  split
  · exact scoped_throw _
  · refine scoped_bind (scoped_bindNames _ _) fun further => ?_
    split
    · exact scoped_bind (scoped_keeps ((leavesEnvironment_onHeap _).keeps kept)) fun rest =>
        scoped_bind (scoped_bindEnv _ rest) fun _ => scoped_pure _
    · exact scoped_pure _

/-- Passing arguments makes bindings and undoes none. -/
theorem scoped_prepare (floor : Nat) (kept : Symbol → Prop) (callee : Value)
    (function : Function) (arguments : List Value) :
    Scoped Memory.env floor kept (prepare callee function arguments) := by
  unfold prepare
  split
  · exact scoped_bind (scoped_bindDynamic _ _ _) fun _ => scoped_pure _
  · exact scoped_bind (scoped_keeps ((leavesEnvironment_onHeap _).keeps kept)) fun _ =>
      scoped_pure _

end Calling

namespace Context

variable {context after : Context} {callee : Value} {arguments : List Value} {floor : Nat}

@[simp] theorem memory_count (context : Context) (update : Statistics → Statistics) :
    (context.count update).memory = context.memory :=
  rfl

@[simp] theorem env_exit (context : Context) (base highWater : Nat) (failed : Bool) :
    (context.exit base highWater failed).memory.env = (context.memory.env.unbindTo base).2 :=
  rfl

@[simp] theorem callDepth_exit (context : Context) (base highWater : Nat) (failed : Bool) :
    (context.exit base highWater failed).callDepth = context.callDepth - 1 :=
  rfl

/-- An activation that is ready to run starts with the bindings that are in force. -/
theorem activate_ok {function : Function} {activation : Activation}
    (ran : context.activate callee function arguments = (.ok activation, after)) :
    activation.base = context.memory.env.bindingDepth ∧
      context.callDepth < context.settings.maxCallDepth ∧
      after.settings = context.settings ∧ after.callDepth = context.callDepth + 1 := by
  cases activated ran with
  | ready room prepared => exact ⟨rfl, room, rfl, rfl⟩

/-- An activation that does not start leaves as many bindings and as many activations
as there were. -/
theorem activate_error {function : Function} {fault : Fault}
    (ran : context.activate callee function arguments = (.error fault, after)) :
    after.memory.env.bindingDepth = context.memory.env.bindingDepth ∧ SameLevel context after := by
  cases activated ran with
  | tooDeep => exact ⟨rfl, .refl _⟩
  | unfit room prepared =>
      have restores := Calling.scoped_prepare context.memory.env.bindingDepth (fun _ => True)
        callee function arguments context.memory (Nat.le_refl _)
      rw [prepared] at restores
      exact ⟨bindingDepth_unbindTo restores.deep, rfl, rfl⟩

/-- Starting an activation restores all cells, whether it succeeds or not. -/
theorem restores_activate {function : Function} {result : Except Fault Activation}
    (ran : context.activate callee function arguments = (result, after))
    (deep : floor ≤ context.memory.env.bindingDepth) (kept : Symbol → Prop) :
    Restores floor kept context.memory.env after.memory.env := by
  cases activated ran with
  | tooDeep => exact .refl kept deep
  | unfit room prepared =>
      have made := Calling.scoped_prepare floor kept callee function arguments context.memory deep
      have above := Calling.scoped_prepare context.memory.env.bindingDepth kept callee function
        arguments context.memory (Nat.le_refl _)
      rw [prepared] at made above
      exact made.trans (restores_unbindTo kept deep above.deep)
  | ready room prepared =>
      have made := Calling.scoped_prepare floor kept callee function arguments context.memory deep
      rw [prepared] at made
      exact made

/-- A call of a built-in function that assigns the value cell of the symbol. -/
def CallAssigns (context : Context) (callee : Value) (arguments : List Value) (symbol : Symbol) :
    Prop :=
  ∃ primitive, context.memory.env.indirectFunction callee = .ok (.primitive primitive) ∧
    primitive.assigned? arguments = some symbol

/-- A new activation has the bindings made so far below it, and is one level deeper. -/
theorem dispatch_activation {activation : Activation}
    (ran : context.dispatch callee arguments = (.ok (.activation activation), after)) :
    activation.base = context.memory.env.bindingDepth ∧
      context.callDepth < context.settings.maxCallDepth ∧
      after.settings = context.settings ∧ after.callDepth = context.callDepth + 1 := by
  cases dispatched ran with
  | entered resolved started =>
      have begun := activate_ok started
      exact begun

/-- The call of a built-in function, as part of a call. -/
theorem keeps_primitive {primitive : Primitive} {result : Except Fault Value}
    (resolved : context.memory.env.indirectFunction callee = .ok (.primitive primitive))
    (performed : ((context.count Statistics.recordCall).count
      Statistics.recordPrimitive).perform (primitive.call arguments) = (result, after)) :
    Keeps (fun symbol => ¬ context.CallAssigns callee arguments symbol) context.memory.env
      after.memory.env ∧ SameLevel context after := by
  have keeps := primitive.keeps_call arguments context.memory
  rcases called : primitive.call arguments context.memory with ⟨outcome, memory⟩
  simp only [count, perform, called] at performed
  rw [called] at keeps
  cases performed
  exact ⟨keeps.mono fun symbol spared assigned => spared ⟨primitive, resolved, assigned⟩, rfl, rfl⟩

/-- A call that starts no activation leaves as many bindings and as many activations as
there were. -/
theorem dispatch_done {result : Except Fault Dispatch}
    (none : ∀ activation, result ≠ .ok (.activation activation))
    (ran : context.dispatch callee arguments = (result, after)) :
    after.memory.env.bindingDepth = context.memory.env.bindingDepth ∧ SameLevel context after := by
  cases dispatched ran with
  | unknown => exact ⟨rfl, rfl, rfl⟩
  | entered => exact absurd rfl (none _)
  | refused resolved started =>
      obtain ⟨depth, level⟩ := activate_error started
      exact ⟨depth, level.settings, level.callDepth⟩
  | answered resolved performed | failed resolved performed =>
      obtain ⟨keeps, level⟩ := keeps_primitive resolved performed
      exact ⟨congrArg Array.size keeps.bindings, level⟩

/-- A call that is answered at once, or begun, restores all cells but those it assigns. -/
theorem restores_dispatch {result : Except Fault Dispatch}
    (deep : floor ≤ context.memory.env.bindingDepth)
    (ran : context.dispatch callee arguments = (result, after)) :
    Restores floor (fun symbol => ¬ context.CallAssigns callee arguments symbol)
      context.memory.env after.memory.env := by
  cases dispatched ran with
  | unknown => exact .refl _ deep
  | entered resolved started | refused resolved started =>
      have restores := restores_activate started deep
      exact restores _
  | answered resolved performed | failed resolved performed =>
      exact .of_keeps deep (keeps_primitive resolved performed).1

end Context

end ByteLisp
