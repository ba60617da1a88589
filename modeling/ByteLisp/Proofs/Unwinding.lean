import ByteLisp.Proofs.Scoping

/-!
# Unwinding

The live activations of a machine are nested in the bindings in force: each started
with no more bindings than the ones it has called. An activation that ends, in
whatever way, undoes its bindings down to where it started, and so hands the bindings
of its caller back. `Context.bindings_and_cells_after_call` follows for whole calls.
-/

namespace ByteLisp

open Environment

/-- An instruction does not move the base of its activation. -/
theorem Activation.base_step {activation moved : Activation} {context after : Context}
    {result : Except Failure Flow} (ran : activation.step context = (result, after, moved)) :
    moved.base = activation.base := by
  obtain ⟨rfl, rfl⟩ | ⟨_, _, _, _, _, _, _, _, rfl⟩ := step_effect ran <;> rfl

/-- Neither does taking a result. -/
theorem Activation.base_receive {activation resumed : Activation} {result : Result}
    (received : activation.receive result = .ok resumed) : resumed.base = activation.base := by
  obtain ⟨value, _, _, rfl⟩ := receive_eq_ok received
  rfl

namespace Machine

/-- With `depth` bindings in force, each of the activations, the innermost first,
started with no more bindings than the ones inside it, and the outermost one with
`floor`. -/
def Nested (floor : Nat) : List Activation → Nat → Prop
  | [], depth => depth = floor
  | activation :: callers, depth => activation.base ≤ depth ∧ Nested floor callers activation.base

namespace Nested

variable {floor depth : Nat} {live : List Activation}

/-- The floor is below the bindings in force. -/
theorem floor_le (nested : Nested floor live depth) : floor ≤ depth := by
  induction live generalizing depth with
  | nil => exact Nat.le_of_eq nested.symm
  | cons activation callers ih => exact Nat.le_trans (ih nested.2) nested.1

/-- So is the base of every live activation. -/
theorem base_le (nested : Nested floor live depth) :
    ∀ activation ∈ live, activation.base ≤ depth := by
  induction live generalizing depth with
  | nil => exact List.forall_mem_nil _
  | cons activation callers ih =>
      refine List.forall_mem_cons.mpr ⟨nested.1, fun caller waits => ?_⟩
      exact Nat.le_trans (ih nested.2 caller waits) nested.1

/-- Inner activations have higher bases. -/
theorem ordered (nested : Nested floor live depth) :
    live.Pairwise fun inner outer => outer.base ≤ inner.base := by
  induction live generalizing depth with
  | nil => exact .nil
  | cons activation callers ih => exact .cons nested.2.base_le (ih nested.2)

end Nested

/-- The live activations are nested in the bindings in force, and come on top of the
`entry` ones that were there before. -/
structure Orderly (floor entry : Nat) (context : Context) (live : List Activation) : Prop where
  nested : Nested floor live context.memory.env.bindingDepth
  callDepth : context.callDepth = entry + live.length

namespace Orderly

variable {floor entry : Nat} {context after : Context} {activation moved : Activation}
  {callers live : List Activation} {callee : Value} {arguments : List Value}

/-- An instruction of the innermost activation. -/
theorem step {result : Except Failure Flow}
    (orderly : Orderly floor entry context (activation :: callers))
    (ran : activation.step context = (result, after, moved)) :
    Orderly floor entry after (moved :: callers) ∧
      Restores floor (fun symbol => ¬ activation.Assigns symbol) context.memory.env
        after.memory.env := by
  obtain ⟨⟨within, outer⟩, callDepth⟩ := orderly
  have own := activation.restores_step (Nat.le_refl _) within ran
  have whole := activation.restores_step outer.floor_le (Nat.le_trans outer.floor_le within) ran
  have level := Activation.sameLevel_step ran
  refine ⟨⟨⟨?_, ?_⟩, level.callDepth.trans callDepth⟩, whole⟩
  · rw [Activation.base_step ran]
    exact own.deep
  · rwa [Activation.base_step ran]

/-- The innermost activation ends. -/
theorem exit (orderly : Orderly floor entry context (activation :: callers))
    (kept : Symbol → Prop) (highWater : Nat) (failed : Bool) :
    Orderly floor entry (context.exit activation.base highWater failed) callers ∧
      Restores floor kept context.memory.env
        (context.exit activation.base highWater failed).memory.env := by
  obtain ⟨⟨within, outer⟩, callDepth⟩ := orderly
  refine ⟨⟨?_, ?_⟩, restores_unbindTo kept outer.floor_le within⟩
  · rwa [Context.env_exit, bindingDepth_unbindTo within]
  · rw [Context.callDepth_exit, callDepth, List.length_cons]
    omega

/-- A new activation starts on top of the others. -/
theorem enter (orderly : Orderly floor entry context live)
    (ran : context.dispatch callee arguments = (.ok (.activation activation), after)) :
    Orderly floor entry after (activation :: live) := by
  obtain ⟨nested, callDepth⟩ := orderly
  obtain ⟨base, _, _, deeper⟩ := Context.dispatch_activation ran
  refine ⟨⟨?_, ?_⟩, ?_⟩
  · rw [base]
    exact (Context.restores_dispatch (Nat.le_refl _) ran).deep
  · rwa [base]
  · rw [deeper, callDepth, List.length_cons]
    omega

/-- A call starts no activation. -/
theorem done {result : Except Fault Dispatch} (orderly : Orderly floor entry context live)
    (none : ∀ activation, result ≠ .ok (.activation activation))
    (ran : context.dispatch callee arguments = (result, after)) :
    Orderly floor entry after live := by
  obtain ⟨depth, same⟩ := Context.dispatch_done none ran
  refine ⟨?_, same.callDepth.trans orderly.callDepth⟩
  rw [depth]
  exact orderly.nested

end Orderly

namespace Phase

/-- The context of the machine. -/
def context : Phase → Context
  | .running machine => machine.context
  | .delivering context _ _ => context

/-- The activations that have started and not ended, the innermost first. -/
def live : Phase → List Activation
  | .running machine => machine.activation :: machine.callers
  | .delivering _ waiting _ => waiting

/-- The machine is about to assign the value cell of the symbol. -/
inductive Assigns : Phase → Symbol → Prop where
  /-- By an instruction. -/
  | instruction {context : Context} {activation : Activation} {callers : List Activation}
      {symbol : Symbol} (assigns : activation.Assigns symbol) :
      Assigns (.running ⟨context, activation, callers⟩) symbol
  /-- By a call of a built-in function. -/
  | call {context middle : Context} {activation moved : Activation} {callers : List Activation}
      {callee : Value} {arguments : List Value} {symbol : Symbol}
      (stepped : activation.step context = (.ok (.call callee arguments), middle, moved))
      (assigns : middle.CallAssigns callee arguments symbol) :
      Assigns (.running ⟨context, activation, callers⟩) symbol

variable {before after : Phase} {floor entry : Nat}

/-- The environment after an instruction. -/
theorem restores_step {context middle : Context} {activation moved : Activation}
    {callers : List Activation} {result : Except Failure Flow}
    (orderly : Orderly floor entry context (activation :: callers))
    (stepped : activation.step context = (result, middle, moved)) :
    Restores floor (fun symbol => ¬ Assigns (.running ⟨context, activation, callers⟩) symbol)
      context.memory.env middle.memory.env :=
  (orderly.step stepped).2.mono fun _ spared assigns => spared (.instruction assigns)

/-- The environment after an instruction that makes a call, and the call. -/
theorem restores_call {context middle after : Context} {activation moved : Activation}
    {callers : List Activation} {callee : Value} {arguments : List Value}
    {result : Except Fault Dispatch}
    (orderly : Orderly floor entry context (activation :: callers))
    (stepped : activation.step context = (.ok (.call callee arguments), middle, moved))
    (dispatched : middle.dispatch callee arguments = (result, after)) :
    Restores floor (fun symbol => ¬ Assigns (.running ⟨context, activation, callers⟩) symbol)
      context.memory.env after.memory.env := by
  have called := Context.restores_dispatch (orderly.step stepped).1.nested.floor_le dispatched
  exact (restores_step orderly stepped).trans
    (called.mono fun _ spared assigns => spared (.call stepped assigns))

/-- A transition keeps the activations in order, and changes what they cannot undo only
where it assigns a symbol. -/
theorem Next.orderly (next : Next before after)
    (orderly : Orderly floor entry before.context before.live) :
    Orderly floor entry after.context after.live ∧
      Restores floor (fun symbol => ¬ before.Assigns symbol) before.context.memory.env
        after.context.memory.env := by
  cases next with
  | proceed stepped onward => exact ⟨(orderly.step stepped).1, restores_step orderly stepped⟩
  | enter stepped dispatched =>
      have moved := (orderly.step stepped).1
      exact ⟨moved.enter dispatched, restores_call orderly stepped dispatched⟩
  | answer stepped dispatched | refuse stepped dispatched =>
      have moved := (orderly.step stepped).1
      exact ⟨moved.done (by simp) dispatched, restores_call orderly stepped dispatched⟩
  | leave stepped | fail stepped =>
      obtain ⟨left, undone⟩ := (orderly.step stepped).1.exit (fun symbol => ¬ Assigns _ symbol) _ _
      exact ⟨left, (restores_step orderly stepped).trans undone⟩
  | resume received =>
      refine ⟨⟨?_, orderly.callDepth⟩, .refl _ orderly.nested.floor_le⟩
      obtain ⟨within, outer⟩ := orderly.nested
      rw [← Activation.base_receive received] at within outer
      exact ⟨within, outer⟩
  | unwind received => exact orderly.exit _ _ _

/-- Along a run everything can be undone but the assignments that the run makes. -/
theorem Reaches.orderly {start : Phase} (reached : Reaches start after)
    (orderly : Orderly floor entry start.context start.live) :
    Orderly floor entry after.context after.live ∧
      Restores floor (fun symbol => ∀ middle, Reaches start middle → ¬ middle.Assigns symbol)
        start.context.memory.env after.context.memory.env := by
  induction reached with
  | refl => exact ⟨orderly, .refl _ orderly.nested.floor_le⟩
  | tail earlier next ih =>
      obtain ⟨before, restored⟩ := ih
      obtain ⟨behind, restores⟩ := next.orderly before
      exact ⟨behind, restored.trans (restores.mono fun symbol spared => spared _ earlier)⟩

end Phase

end Machine

namespace Context

open Machine

/-- A call of `callee` executes an assignment of the value cell of the symbol. -/
inductive RunAssigns (context : Context) (callee : Value) (arguments : List Value)
    (symbol : Symbol) : Prop where
  /-- It is itself the call of a built-in function that assigns. -/
  | builtIn (assigns : context.CallAssigns callee arguments symbol)
  /-- It starts an activation, and the machine assigns in the course of its run. -/
  | running {activation : Activation} {started : Context} {phase : Phase}
      (dispatched : context.dispatch callee arguments = (.ok (.activation activation), started))
      (reached : Phase.Reaches (.running { context := started, activation }) phase)
      (assigns : phase.Assigns symbol)

/-- A function object is what it calls. -/
theorem dispatch_function (context : Context) (address : Address) (arguments : List Value) :
    context.dispatch (.function address) arguments =
      match (context.count Statistics.recordCall).activate (.function address)
        (context.memory.heap.function address) arguments with
      | (.ok activation, after) => (.ok (.activation activation), after)
      | (.error fault, after) => (.error fault, after) :=
  rfl

/-- Calling a function by its address is calling the function object. -/
theorem invoke_eq_call (context : Context) (fuel : Nat) (address : Address)
    (arguments : List Value) :
    context.invoke fuel address arguments = context.call fuel (.function address) arguments := by
  simp only [invoke, call, dispatch_function, memory_count]
  rcases (context.count Statistics.recordCall).activate (.function address)
    (context.memory.heap.function address) arguments with ⟨fault | activation, after⟩ <;> rfl

/-- A machine that has just started is in order. -/
theorem orderly_start {context started : Context} {callee : Value} {arguments : List Value}
    {activation : Activation}
    (dispatched : context.dispatch callee arguments = (.ok (.activation activation), started)) :
    Orderly context.memory.env.bindingDepth context.callDepth started [activation] := by
  have before : Orderly context.memory.env.bindingDepth context.callDepth context [] := ⟨rfl, rfl⟩
  exact before.enter dispatched

/-- The environment and the number of live activations after a call. -/
theorem keeps_call {context after : Context} {fuel : Nat} {callee : Value}
    {arguments : List Value} {result : Result}
    (returned : context.call fuel callee arguments = some (result, after)) :
    Keeps (fun symbol => ¬ context.RunAssigns callee arguments symbol) context.memory.env
        after.memory.env ∧
      after.callDepth = context.callDepth := by
  have done : ∀ {outcome}, (∀ activation, outcome ≠ .ok (.activation activation)) →
      context.dispatch callee arguments = (outcome, after) →
      Keeps (fun symbol => ¬ context.RunAssigns callee arguments symbol) context.memory.env
          after.memory.env ∧
        after.callDepth = context.callDepth := by
    intro outcome none dispatched
    obtain ⟨depth, level⟩ := dispatch_done none dispatched
    have restores := restores_dispatch (Nat.le_refl _) dispatched
    exact ⟨(restores.mono fun symbol spared assigns => spared (.builtIn assigns)).keeps depth,
      level.callDepth⟩
  cases Context.returned returned with
  | answered dispatched | refused dispatched => exact done (by simp) dispatched
  | ended dispatched reached =>
      obtain ⟨orderly, restored⟩ := reached.orderly (orderly_start dispatched)
      have begun := restores_dispatch (Nat.le_refl _) dispatched
      have restores : Restores context.memory.env.bindingDepth
          (fun symbol => ¬ context.RunAssigns callee arguments symbol) context.memory.env
          after.memory.env :=
        (begun.mono fun symbol spared assigns => spared (.builtIn assigns)).trans
          (restored.mono fun symbol spared phase reached assigns =>
            spared (.running dispatched reached assigns))
      exact ⟨restores.keeps orderly.nested, orderly.callDepth⟩

/-- However a call ends, with a value or with a failure at any depth of nesting, the
bindings in force are the ones from before, there are as many live activations, and
the value cell of every symbol that the call has not assigned is as it was. -/
theorem bindings_and_cells_after_call (context : Context) (fuel : Nat) (callee : Value)
    (arguments : List Value) (result : Result) (after : Context)
    (returned : context.call fuel callee arguments = some (result, after) ∨
      ∃ address, callee = .function address ∧
        context.invoke fuel address arguments = some (result, after)) :
    after.memory.env.bindings = context.memory.env.bindings ∧
      after.callDepth = context.callDepth ∧
      ∀ symbol, ¬ context.RunAssigns callee arguments symbol →
        after.memory.env.cell symbol = context.memory.env.cell symbol := by
  have called : context.call fuel callee arguments = some (result, after) := by
    obtain called | ⟨address, rfl, invoked⟩ := returned
    · exact called
    · rwa [invoke_eq_call] at invoked
  obtain ⟨keeps, callDepth⟩ := keeps_call called
  exact ⟨keeps.bindings, callDepth, keeps.cells⟩

/-- A context with a single function, which has one parameter and no code. -/
def oneEmptyFunction : Context where
  memory.heap.functions := ⟨#[⟨.dynamic { required := [⟨"x"⟩] }, #[], #[], 0, none, none⟩]⟩

/-- An activation of a function without code fails at once, and assigns nothing. -/
theorem not_runAssigns_oneEmptyFunction (arguments : List Value) (symbol : Symbol) :
    ¬ oneEmptyFunction.RunAssigns (.function 0) arguments symbol := by
  intro runs
  cases runs with
  | builtIn assigns =>
      obtain ⟨primitive, resolved, _⟩ := assigns
      cases resolved
  | @running activation started phase dispatched reached assigns =>
      have empty : activation.function.code = #[] := by
        cases Context.dispatched dispatched with
        | entered resolved begun =>
            cases resolved
            cases activated begun with
            | ready => rfl
      have stuck : ∀ {flow after moved}, activation.step started ≠ (.ok flow, after, moved) := by
        intro flow after moved ran
        simp [Activation.step, empty] at ran
      obtain rfl | ⟨_, next, rest⟩ := reached.cases_head
      · cases assigns with
        | instruction assigns =>
            obtain ⟨instruction, place, decoded, _⟩ := assigns
            rw [empty] at decoded
            cases decoded
        | call stepped => exact stuck stepped
      · cases next with
        | fail stepped =>
            obtain rfl | ⟨_, further, _⟩ := rest.cases_head
            · cases assigns
            · cases further
        | proceed stepped | enter stepped | answer stepped | refuse stepped | leave stepped =>
            exact stuck stepped

/-- The binding of the parameter is undone when the function fails, and the parameter
is void again. -/
theorem binding_undone_after_failure :
    ∃ failure after,
      oneEmptyFunction.call 1 (.function 0) [.nil] = some (.error failure, after) ∧
      after.memory.env.bindings = #[] ∧ after.callDepth = 0 ∧
      after.memory.env.cell ⟨"x"⟩ = none := by
  have fails : (oneEmptyFunction.call 1 (.function 0) [.nil]).any (!·.1.isOk) = true := by
    decide +kernel
  rcases called : oneEmptyFunction.call 1 (.function 0) [.nil] with _ | ⟨failure | value, after⟩
  · simp [called] at fails
  · obtain ⟨bindings, callDepth, cells⟩ := oneEmptyFunction.bindings_and_cells_after_call 1
      (.function 0) [.nil] (.error failure) after (.inl called)
    refine ⟨failure, after, rfl, bindings, callDepth, ?_⟩
    rw [cells ⟨"x"⟩ (not_runAssigns_oneEmptyFunction [.nil] ⟨"x"⟩)]
    decide +kernel
  · simp [called, Except.isOk, Except.toBool] at fails

end Context

end ByteLisp
