import ByteLisp.Proofs.BindingHistory
import ByteLisp.Proofs.MachineInvariant

/-!
# The history of a program

Programs have no way to change an environment but the operations of the environment itself.
Whatever an instruction, a built-in function or a whole run does to it is therefore a history
of such operations, and everything that all histories preserve is preserved by all programs.
-/

namespace ByteLisp

open Environment

namespace Environment

/-- Some history leads from one environment to the other. -/
def Evolves (before after : Environment) : Prop :=
  ∃ history, before.performAll history = after

namespace Evolves

variable {before middle after : Environment}

/-- Nothing is the shortest history. -/
theorem refl (env : Environment) : Evolves env env :=
  ⟨[], rfl⟩

/-- Histories follow one another. -/
theorem trans (first : Evolves before middle) (second : Evolves middle after) :
    Evolves before after := by
  obtain ⟨early, rfl⟩ := first
  obtain ⟨late, rfl⟩ := second
  exact ⟨early ++ late, List.foldl_append⟩

/-- One operation is a history. -/
theorem perform (env : Environment) (operation : Operation) :
    Evolves env (operation.perform env).2 :=
  ⟨[operation], rfl⟩

end Evolves

end Environment

/-- What the program does to the environment is a history of operations. -/
def Historic {σ α : Type} (environment : σ → Environment)
    (program : ExceptT Fault (StateM σ) α) : Prop :=
  ∀ state, Evolves (environment state) (environment (program state).2)

section Sequences

variable {σ α β : Type} {environment : σ → Environment}

/-- A program that does nothing does nothing to the environment. -/
theorem historic_pure (value : α) :
    Historic environment (pure value : ExceptT Fault (StateM σ) α) :=
  fun _ => .refl _

/-- Neither does one that fails. -/
theorem historic_throw (fault : Fault) :
    Historic environment (throw fault : ExceptT Fault (StateM σ) α) :=
  fun _ => .refl _

/-- Programs in a row have their histories in a row. -/
theorem historic_bind {program : ExceptT Fault (StateM σ) α}
    {rest : α → ExceptT Fault (StateM σ) β} (first : Historic environment program)
    (next : ∀ value, Historic environment (rest value)) :
    Historic environment (program >>= rest) := by
  intro state
  have before := first state
  rw [run_bind]
  rcases ran : program state with ⟨fault | value, middle⟩
  · rwa [ran] at before
  · rw [ran] at before
    exact before.trans (next value middle)

/-- What leaves the environment alone has no history. -/
theorem LeavesEnvironment.historic {action : Action α} (leaves : LeavesEnvironment action) :
    Historic Memory.env action := by
  intro memory
  rw [leaves memory]
  exact .refl _

/-- An operation of the environment is its own history. -/
theorem historic_onEnv (operation : Operation) :
    Historic Memory.env (Action.onEnv operation.perform) :=
  fun memory => .perform memory.env operation

/-- The operand stack is not part of the environment. -/
theorem historic_onStack (operation : StackM α) :
    Historic Running.env (ExecM.onStack operation) :=
  fun _ => .refl _

/-- Neither are the statistics. -/
theorem historic_count (update : Statistics → Statistics) :
    Historic Running.env (ExecM.count update) :=
  fun _ => .refl _

/-- An action has the same history within an instruction. -/
theorem historic_perform {action : Action α} (historic : Historic Memory.env action) :
    Historic Running.env (ExecM.perform action) :=
  fun running => historic running.context.memory

end Sequences

/-! ## Built-in functions -/

namespace Cells

/-- An operation on the cells of a symbol that is given as a value. -/
theorem historic_onSymbol {α : Type} (symbol : Value) (operation : Symbol → Operation)
    (answer : α) :
    Historic Memory.env (do
      Action.onEnv (operation (← Action.ofExcept symbol.expectSymbol)).perform
      return answer) :=
  historic_bind (leavesEnvironment_ofExcept _).historic fun name =>
    historic_bind (historic_onEnv (operation name)) fun _ => historic_pure _

/-- Setting a variable is an operation of the environment. -/
theorem historic_set (symbol value : Value) : Historic Memory.env (set symbol value) :=
  historic_onSymbol symbol (.set · value) value

/-- So is defining a function. -/
theorem historic_fset (symbol definition : Value) : Historic Memory.env (fset symbol definition) :=
  historic_onSymbol symbol (.fset · definition) definition

/-- So is making a variable unbound. -/
theorem historic_makeUnbound (symbol : Value) : Historic Memory.env (makeUnbound symbol) :=
  historic_onSymbol symbol .makeUnbound symbol

/-- So is putting a property. -/
theorem historic_put (symbol key value : Value) : Historic Memory.env (put symbol key value) :=
  historic_onSymbol symbol (.put · key value) value

end Cells

namespace Primitive

/-- A built-in function changes the environment by at most one of these operations. -/
theorem historic_apply (primitive : Primitive) (arguments : List Value) :
    Historic Memory.env (primitive.apply arguments) := by
  by_cases plain : primitive.changesCells = false
  · exact ((apply_plain primitive arguments).2 plain).historic
  · cases primitive with
    | set =>
        match arguments with
        | [symbol, value] => exact Cells.historic_set symbol value
        | [] | [_] | _ :: _ :: _ :: _ => exact historic_throw _
    | fset =>
        match arguments with
        | [symbol, definition] => exact Cells.historic_fset symbol definition
        | [] | [_] | _ :: _ :: _ :: _ => exact historic_throw _
    | makunbound =>
        match arguments with
        | [symbol] => exact Cells.historic_makeUnbound symbol
        | [] | _ :: _ :: _ => exact historic_throw _
    | put =>
        match arguments with
        | [symbol, key, value] => exact Cells.historic_put symbol key value
        | [] | [_] | [_, _] | _ :: _ :: _ :: _ :: _ => exact historic_throw _
    | _ => exact absurd rfl plain

/-- So does a call of it, which may be refused for its number of arguments. -/
theorem historic_call (primitive : Primitive) (arguments : List Value) :
    Historic Memory.env (primitive.call arguments) := by
  unfold call
  split
  · exact historic_apply primitive arguments
  · exact historic_throw _

end Primitive

/-! ## Instructions -/

namespace Execute

open ExecM

/-- Pushing does nothing to the environment. -/
theorem historic_push (value : Value) :
    Historic Running.env (push value >>= fun _ => pure Flow.next) :=
  historic_bind (historic_onStack _) fun _ => historic_pure _

/-- The history of an action whose result is pushed is that of the action. -/
theorem historic_answer {action : Action Value} (historic : Historic Memory.env action) :
    Historic Running.env (perform action >>= fun result => push result >>= fun _ =>
      pure Flow.next) :=
  historic_bind (historic_perform historic) historic_push

/-- An instruction with one operand does what its operation does. -/
theorem historic_unary {operation : Value → Action Value}
    (leaves : ∀ x, LeavesEnvironment (operation x)) : Historic Running.env (unary operation) :=
  historic_bind (historic_onStack _) fun x => historic_answer (leaves x).historic

/-- So does an instruction with two operands. -/
theorem historic_binary {operation : Value → Value → Action Value}
    (historic : ∀ a b, Historic Memory.env (operation a b)) :
    Historic Running.env (binary operation) :=
  historic_bind (historic_onStack _) fun b => historic_bind (historic_onStack _) fun a =>
    historic_answer (historic a b)

/-- So does an instruction with three operands. -/
theorem historic_ternary {operation : Value → Value → Value → Action Value}
    (leaves : ∀ a b c, LeavesEnvironment (operation a b c)) :
    Historic Running.env (ternary operation) :=
  historic_bind (historic_onStack _) fun c => historic_bind (historic_onStack _) fun b =>
    historic_bind (historic_onStack _) fun a => historic_answer (leaves a b c).historic

/-- So does an instruction with a counted number of operands. -/
theorem historic_variadic {count : Nat} {operation : List Value → Action Value}
    (leaves : ∀ items, LeavesEnvironment (operation items)) :
    Historic Running.env (variadic count operation) :=
  historic_bind (historic_onStack _) fun items => historic_answer (leaves items).historic

/-- Copying a slot does nothing to the environment. -/
theorem historic_copy (slot : Nat) : Historic Running.env (copy slot) :=
  historic_bind (historic_onStack _) historic_push

/-- Neither does a conditional jump. -/
theorem historic_jumpIf (wanted : Value → Bool) (target : Nat) :
    Historic Running.env (jumpIf wanted target) := by
  refine historic_bind (historic_onStack _) fun value => ?_
  split
  · exact historic_pure _
  · exact historic_pure _

/-- Neither does one that pops only when it does not jump. -/
theorem historic_jumpElsePop (wanted : Value → Bool) (target : Nat) :
    Historic Running.env (jumpElsePop wanted target) := by
  refine historic_bind (historic_onStack _) fun value => ?_
  split
  · exact historic_pure _
  · exact historic_bind (historic_onStack _) fun _ => historic_pure _

/-- Neither does discarding values. -/
theorem historic_discard (operand : Nat) : Historic Running.env (discard operand) := by
  have dropped : Historic Running.env
      (onStack (OperandStack.dropMany (operand % 128)) >>= fun _ => pure Flow.next) :=
    historic_bind (historic_onStack _) fun _ => historic_pure _
  unfold discard
  dsimp only
  split
  · exact historic_bind (historic_onStack _) fun _ =>
      historic_bind (historic_onStack _) fun _ => dropped
  · exact dropped

/-- Neither does storing into a slot. -/
theorem historic_store (slot : Nat) : Historic Running.env (store slot) := by
  refine historic_bind (historic_onStack _) fun value => ?_
  dsimp only
  split
  · exact historic_bind (historic_onStack _) fun _ => historic_pure _
  · exact historic_pure _

/-- Counting adds nothing to the history of an action. -/
theorem historic_counted {action : Action Unit} (historic : Historic Memory.env action)
    (update : Statistics → Statistics) :
    Historic Running.env (perform action >>= fun _ => count update >>= fun _ => pure Flow.next) :=
  historic_bind (historic_perform historic) fun _ =>
    historic_bind (historic_count _) fun _ => historic_pure _

/-- Undoing bindings is an operation of the environment, or is refused. -/
theorem historic_unbind (base requested : Nat) :
    Historic Running.env (unbind base requested) := by
  refine historic_counted (historic_bind (leavesEnvironment_ask _).historic fun available => ?_) _
  dsimp only
  split
  · exact historic_throw _
  · exact historic_onEnv (.unbind requested)

/-- Every instruction changes the environment by its own operations alone. -/
theorem historic_operation (constants : Array Value) (base : Nat) (opcode : Opcode)
    (operand : UInt16) : Historic Running.env (operation constants base opcode operand) := by
  have named : ∀ index, Historic Running.env
      (perform (Action.ofExcept (constantSymbol constants index))) :=
    fun index => historic_perform (leavesEnvironment_ofExcept _).historic
  cases opcode with
  | varSet =>
      exact historic_bind (named _) fun symbol => historic_bind (historic_onStack _) fun value =>
        historic_bind (historic_perform (historic_onEnv (.setBound symbol value))) fun _ =>
          historic_pure _
  | varBind =>
      exact historic_bind (named _) fun symbol => historic_bind (historic_onStack _) fun value =>
        historic_counted (historic_onEnv (.bind symbol value)) _
  | unbind => exact historic_unbind _ _
  | varRef => exact historic_bind (named _) fun _ => historic_answer (leavesEnvironment_ask _).historic
  | constant | constant2 => exact historic_answer (leavesEnvironment_ofExcept _).historic
  | call =>
      exact historic_bind (historic_onStack _) fun _ => historic_bind (historic_onStack _) fun _ =>
        historic_pure _
  | ret | discard => exact historic_bind (historic_onStack _) fun _ => historic_pure _
  | goto => exact historic_pure _
  | gotoIfNil | gotoIfNotNil => exact historic_jumpIf _ _
  | gotoIfNilElsePop | gotoIfNotNilElsePop => exact historic_jumpElsePop _ _
  | stackRef | dup => exact historic_copy _
  | discardN => exact historic_discard _
  | stackSet | stackSet2 => exact historic_store _
  | set => exact historic_binary Cells.historic_set
  | fset => exact historic_binary Cells.historic_fset
  | car | cdr | carSafe | cdrSafe | length | nreverse | symbolp | consp | stringp | listp
  | numberp | integerp | not | add1 | sub1 | negate | upcase | downcase | symbolValue
  | symbolFunction => exact historic_unary fun _ => by simp
  | cons | nth | nthcdr | elt | memq | member | assq | nconc | setcar | setcdr | eq | equal
  | plus | diff | mult | quo | rem | max | min | numEq | greater | less | lessEq | greaterEq
  | aref | stringEq | stringLess | get =>
      exact historic_binary fun _ _ => LeavesEnvironment.historic (by simp)
  | aset | substring => exact historic_ternary fun _ _ _ => by simp
  | list1 | list2 | list3 | list4 | listN | concat2 | concat3 | concat4 | concatN =>
      exact historic_variadic fun _ => by simp

end Execute

/-- An instruction leads to an environment by some history. -/
theorem Activation.evolves_step {activation moved : Activation} {context after : Context}
    {result : Except Failure Flow} (ran : activation.step context = (result, after, moved)) :
    Evolves context.memory.env after.memory.env := by
  obtain ⟨rfl, rfl⟩ | ⟨instruction, next, outcome, place, left, decoded, executed, rfl, rfl⟩ :=
    step_effect ran
  · exact .refl _
  · have evolved := Execute.historic_operation activation.function.constants activation.base
      instruction.opcode instruction.operand
      ⟨context.recordInstruction activation.pc instruction activation.stack.depth,
        activation.stack⟩
    rw [show Execute.operation _ _ _ _ _ = _ from executed] at evolved
    simpa only [Running.env, Context.memory_recordInstruction] using evolved

/-! ## Calls and runs -/

namespace Calling

/-- Binding names is a history of bindings, one for each name. -/
theorem historic_bindNames (names : List Symbol) (arguments : List Value) :
    Historic Memory.env (bindNames names arguments) := by
  induction names generalizing arguments with
  | nil => exact historic_pure _
  | cons name names ih =>
      exact historic_bind (historic_onEnv (.bind name (arguments.headD .nil))) fun _ => ih _

/-- Passing arguments by name is a history of bindings. -/
theorem historic_bindDynamic (callee : Value) (list : ParameterList) (arguments : List Value) :
    Historic Memory.env (bindDynamic callee list arguments) := by
  unfold bindDynamic
  dsimp only
  split
  · exact historic_throw _
  · refine historic_bind (historic_bindNames _ _) fun further => ?_
    split
    · rename_i name _
      exact historic_bind (leavesEnvironment_onHeap _).historic fun rest =>
        historic_bind (historic_onEnv (.bind name rest)) fun _ => historic_pure _
    · exact historic_pure _

/-- Passing arguments is a history, in both conventions. -/
theorem historic_prepare (callee : Value) (function : Function) (arguments : List Value) :
    Historic Memory.env (prepare callee function arguments) := by
  unfold prepare
  split
  · exact historic_bind (historic_bindDynamic _ _ _) fun _ => historic_pure _
  · exact historic_bind (leavesEnvironment_onHeap _).historic fun _ => historic_pure _

end Calling

namespace Context

variable {context after : Context} {callee : Value} {arguments : List Value}

/-- The end of an activation undoes bindings, and does nothing else to the environment. -/
theorem evolves_exit (context : Context) (base highWater : Nat) (failed : Bool) :
    Evolves context.memory.env (context.exit base highWater failed).memory.env :=
  .perform context.memory.env (.unbindTo base)

/-- Starting an activation leads to an environment by some history. -/
theorem evolves_activate {function : Function} {result : Except Fault Activation}
    (ran : context.activate callee function arguments = (result, after)) :
    Evolves context.memory.env after.memory.env := by
  have made := Calling.historic_prepare callee function arguments context.memory
  cases activated ran with
  | tooDeep => exact .refl _
  | @unfit _ memory room prepared =>
      rw [prepared] at made
      exact made.trans (.perform memory.env (.unbindTo context.memory.env.bindingDepth))
  | ready room prepared =>
      rw [prepared] at made
      exact made

/-- So does an action with a history. -/
theorem evolves_perform {α : Type} {action : Action α} {result : Except Fault α}
    (historic : Historic Memory.env action) (ran : context.perform action = (result, after)) :
    Evolves context.memory.env after.memory.env := by
  obtain rfl : (context.perform action).2 = after := congrArg Prod.snd ran
  exact historic context.memory

/-- So does a call that is answered at once, or begun. -/
theorem evolves_dispatch {result : Except Fault Dispatch}
    (ran : context.dispatch callee arguments = (result, after)) :
    Evolves context.memory.env after.memory.env := by
  cases dispatched ran with
  | unknown => exact .refl _
  | entered resolved started | refused resolved started =>
      have evolves := evolves_activate started
      exact evolves
  | @answered primitive _ _ resolved performed | @failed primitive _ _ resolved performed =>
      have evolves := evolves_perform (primitive.historic_call arguments) performed
      exact evolves

end Context

namespace Context

variable {context after : Context} {callee : Value} {arguments : List Value}

/-- Whatever a machine does, it changes the environment by operations of its own alone. -/
theorem lasting_evolves (env : Environment) :
    Lasting fun context => Evolves env context.memory.env where
  step evolves ran := evolves.trans (Activation.evolves_step ran)
  dispatch evolves ran := evolves.trans (evolves_dispatch ran)
  exit evolves base highWater failed := evolves.trans (evolves_exit _ base highWater failed)

/-- Whatever a machine has done since it was started. -/
theorem Starts.evolves {machine : Machine} {phase : Machine.Phase}
    (starts : context.Starts callee arguments machine)
    (reached : Machine.Phase.Reaches (.running machine) phase) :
    Evolves context.memory.env phase.context.memory.env :=
  (lasting_evolves _).starts starts reached (.refl _)

/-- Whatever a call has done that came to an end. -/
theorem evolves_call {fuel : Nat} {result : Result}
    (returned : context.call fuel callee arguments = some (result, after)) :
    Evolves context.memory.env after.memory.env :=
  (lasting_evolves _).call returned (.refl _)

end Context

end ByteLisp
