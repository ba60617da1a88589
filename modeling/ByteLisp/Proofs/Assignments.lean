import ByteLisp.Proofs.DynamicScope

/-!
# What built-in functions do to the environment

Only `set` and `makunbound` assign value cells, and each call of them assigns the
cell of one symbol. `fset` and `put` change other cells. All other built-in
functions leave the environment alone, and none makes or undoes a binding.
-/

namespace ByteLisp

open Environment

/-- The action does not change the environment. -/
def LeavesEnvironment {α : Type} (action : Action α) : Prop :=
  ∀ memory, (action memory).2.env = memory.env

section Actions

variable {α β : Type}

@[simp] theorem leavesEnvironment_pure (value : α) :
    LeavesEnvironment (pure value : Action α) :=
  fun _ => rfl

@[simp] theorem leavesEnvironment_throw (fault : Fault) :
    LeavesEnvironment (throw fault : Action α) :=
  fun _ => rfl

@[simp] theorem leavesEnvironment_ofExcept (result : Except Fault α) :
    LeavesEnvironment (Action.ofExcept result) :=
  fun _ => rfl

@[simp] theorem leavesEnvironment_look (question : Heap → Except Fault α) :
    LeavesEnvironment (Action.look question) :=
  fun _ => rfl

@[simp] theorem leavesEnvironment_ask (question : Environment → Except Fault α) :
    LeavesEnvironment (Action.ask question) :=
  fun _ => rfl

@[simp] theorem leavesEnvironment_onHeap (operation : HeapM α) :
    LeavesEnvironment (Action.onHeap operation) :=
  fun _ => rfl

/-- Two actions in a row leave alone what both of them leave alone. -/
theorem leavesEnvironment_bind {action : Action α} {rest : α → Action β}
    (first : LeavesEnvironment action) (next : ∀ value, LeavesEnvironment (rest value)) :
    LeavesEnvironment (action >>= rest) := by
  intro memory
  rw [run_bind]
  have same := first memory
  rcases ran : action memory with ⟨fault | value, after⟩
  · rwa [ran] at same
  · rw [ran] at same
    exact (next value after).trans same

end Actions

namespace Cells

/-- An operation on the cells of a symbol leaves an environment behind that it
reaches from the symbol, or the same one where the value is not a symbol. -/
theorem onSymbol_env {α : Type} {symbol : Value} {rest : Symbol → Action α} {memory : Memory}
    (reached : Environment → Prop) (unchanged : reached memory.env)
    (named : ∀ name, symbol.symbol? = some name → reached (rest name memory).2.env) :
    reached ((do rest (← Action.ofExcept symbol.expectSymbol) : Action α) memory).2.env := by
  rw [run_bind]
  unfold Action.ofExcept Value.expectSymbol
  cases found : symbol.symbol? with
  | none => exact unchanged
  | some name => exact named name found

/-- An argument that is no symbol is refused before anything happens. -/
@[simp] theorem leavesEnvironment_onSymbol {α : Type} (symbol : Value) {rest : Symbol → Action α}
    (leaves : ∀ name, LeavesEnvironment (rest name)) :
    LeavesEnvironment (do rest (← Action.ofExcept symbol.expectSymbol)) :=
  leavesEnvironment_bind (leavesEnvironment_ofExcept _) leaves

@[simp] theorem leavesEnvironment_symbolValue (symbol : Value) :
    LeavesEnvironment (symbolValue symbol) :=
  leavesEnvironment_onSymbol symbol fun _ => leavesEnvironment_ask _

@[simp] theorem leavesEnvironment_symbolFunction (symbol : Value) :
    LeavesEnvironment (symbolFunction symbol) :=
  leavesEnvironment_onSymbol symbol fun _ => leavesEnvironment_ask _

@[simp] theorem leavesEnvironment_isBound (symbol : Value) : LeavesEnvironment (isBound symbol) :=
  leavesEnvironment_onSymbol symbol fun _ => leavesEnvironment_ask _

@[simp] theorem leavesEnvironment_isFunctionBound (symbol : Value) :
    LeavesEnvironment (isFunctionBound symbol) :=
  leavesEnvironment_onSymbol symbol fun _ => leavesEnvironment_ask _

@[simp] theorem leavesEnvironment_get (symbol key : Value) : LeavesEnvironment (get symbol key) :=
  leavesEnvironment_onSymbol symbol fun _ => leavesEnvironment_ask _

@[simp] theorem leavesEnvironment_propertyList (symbol : Value) :
    LeavesEnvironment (propertyList symbol) :=
  leavesEnvironment_onSymbol symbol fun _ =>
    leavesEnvironment_bind (leavesEnvironment_ask _) fun _ => leavesEnvironment_onHeap _

/-- An operation on the environment that is followed by a value. -/
theorem onEnv_return_env {α : Type} (operation : EnvM Unit) (value : α) (memory : Memory) :
    ((do Action.onEnv operation; return value : Action α) memory).2.env =
      (operation memory.env).2 := by
  obtain ⟨heap, env⟩ := memory
  simp only [run_bind, Action.onEnv]
  rcases operation env with ⟨fault | _, after⟩ <;> rfl

/-- Setting a variable touches its own value cell and no other. -/
theorem keeps_set (memory : Memory) (symbol value : Value) :
    Keeps (fun other => symbol.symbol? ≠ some other) memory.env
      (set symbol value memory).2.env := by
  refine onSymbol_env (Keeps _ memory.env) (.refl _ _) fun name found => ?_
  rw [onEnv_return_env, found]
  unfold Environment.set
  split
  · exact .refl _ _
  · exact (keeps_store memory.env name (some value)).mono fun other different same =>
      different (congrArg some same.symm)

/-- Making a variable unbound touches its own value cell and no other. -/
theorem keeps_makeUnbound (memory : Memory) (symbol : Value) :
    Keeps (fun other => symbol.symbol? ≠ some other) memory.env
      (makeUnbound symbol memory).2.env := by
  refine onSymbol_env (Keeps _ memory.env) (.refl _ _) fun name found => ?_
  rw [onEnv_return_env, found]
  unfold Environment.makeUnbound
  split
  · exact .refl _ _
  · exact (keeps_store memory.env name none).mono fun other different same =>
      different (congrArg some same.symm)

/-- Defining a function touches no value cell. -/
theorem keeps_fset (kept : Symbol → Prop) (memory : Memory) (symbol definition : Value) :
    Keeps kept memory.env (fset symbol definition memory).2.env := by
  refine onSymbol_env (Keeps kept memory.env) (.refl _ _) fun name _ => ?_
  rw [onEnv_return_env]
  unfold Environment.fset
  dsimp only
  split
  · exact ⟨rfl, fun _ _ => rfl⟩
  · split
    · exact .refl _ _
    · exact ⟨rfl, fun _ _ => rfl⟩

/-- Putting a property touches no value cell. -/
theorem keeps_put (kept : Symbol → Prop) (memory : Memory) (symbol key value : Value) :
    Keeps kept memory.env (put symbol key value memory).2.env := by
  refine onSymbol_env (Keeps kept memory.env) (.refl _ _) fun name _ => ?_
  rw [onEnv_return_env]
  exact ⟨rfl, fun _ _ => rfl⟩

end Cells

namespace Primitive

/-- Whether the built-in function changes the cells of a symbol. -/
def changesCells : Primitive → Bool
  | set | fset | makunbound | put => true
  | _ => false

/-- The symbol whose value cell a call of the built-in function assigns. -/
def assigned? (primitive : Primitive) (arguments : List Value) : Option Symbol :=
  match primitive, arguments with
  | set, [symbol, _] | makunbound, [symbol] => symbol.symbol?
  | _, _ => none

/-- A built-in function blames its data, unless it makes a vector, and leaves the environment
alone unless it is one of the four that change cells. -/
theorem apply_plain (primitive : Primitive) (arguments : List Value) :
    (primitive ≠ .makeVector → RaisesData (primitive.apply arguments)) ∧
      (primitive.changesCells = false → LeavesEnvironment (primitive.apply arguments)) := by
  have mismatched : (primitive.arityMismatch arguments).ofData = true := rfl
  unfold apply
  split
  all_goals simp [mismatched, changesCells, Arithmetic.plus, Arithmetic.mult, Arithmetic.add1,
    Arithmetic.sub1, Arithmetic.diff, Arithmetic.numEq, Arithmetic.less, Arithmetic.greater,
    Arithmetic.lessEq, Arithmetic.greaterEq, Arithmetic.max, Arithmetic.min, Sequences.upcase,
    Sequences.downcase]

/-- A built-in function fails because of its data, or stops the machine because it is asked for a
vector that no memory can hold. -/
theorem ofData_or_oversized {primitive : Primitive} {arguments : List Value} {memory : Memory}
    {fault : Fault} (failed : (primitive.call arguments memory).1 = .error fault) :
    fault.ofData = true ∨ fault.isFatal = true ∧ primitive.Oversized arguments := by
  unfold call at failed
  split at failed
  · by_cases vector : primitive = .makeVector
    · subst vector
      match arguments with
      | [size, value] =>
          rw [apply, Action.onHeap, newVector, run_bind, HeapM.look] at failed
          cases sized : vectorSize size with
          | error refused =>
              rw [sized] at failed
              cases failed
              obtain ofData | ⟨fatal, count, rfl, tooMany⟩ := vectorSize_eq_error sized
              · exact .inl ofData
              · exact .inr ⟨fatal, rfl, count, value, rfl, tooMany⟩
          | ok count =>
              rw [sized] at failed
              cases failed
      | [] | [_] | _ :: _ :: _ :: _ =>
          cases failed
          exact .inl rfl
    · exact .inl ((apply_plain primitive arguments).1 vector memory fault failed)
  · cases failed
    exact .inl rfl

/-- A call for a vector that no memory can hold stops the machine. -/
theorem Oversized.isFatal {primitive : Primitive} {arguments : List Value}
    (oversized : primitive.Oversized arguments) (memory : Memory) :
    ∃ fault, primitive.call arguments memory = (.error fault, memory) ∧ fault.isFatal = true := by
  obtain ⟨rfl, size, value, rfl, tooMany⟩ := oversized
  refine ⟨.capacityExceeded size.toInt.toNat, ?_, rfl⟩
  have accepted : makeVector.arity.accepts [Value.int size, value].length = true := rfl
  rw [call, if_pos accepted, apply, Action.onHeap, newVector_of_oversized tooMany]

/-- A call of a built-in function keeps all bindings, and all cells but the one that
it assigns. -/
theorem keeps_call (primitive : Primitive) (arguments : List Value) (memory : Memory) :
    Keeps (fun symbol => primitive.assigned? arguments ≠ some symbol) memory.env
      (primitive.call arguments memory).2.env := by
  unfold call
  split
  · by_cases plain : primitive.changesCells = false
    · rw [(apply_plain primitive arguments).2 plain memory]
      exact .refl _ _
    · cases primitive with
      | set =>
          match arguments with
          | [symbol, value] => exact Cells.keeps_set memory symbol value
          | [] | [_] | _ :: _ :: _ :: _ => exact .refl _ _
      | fset =>
          match arguments with
          | [symbol, definition] => exact Cells.keeps_fset _ memory symbol definition
          | [] | [_] | _ :: _ :: _ :: _ => exact .refl _ _
      | makunbound =>
          match arguments with
          | [symbol] => exact Cells.keeps_makeUnbound memory symbol
          | [] | _ :: _ :: _ => exact .refl _ _
      | put =>
          match arguments with
          | [symbol, key, value] => exact Cells.keeps_put _ memory symbol key value
          | [] | [_] | [_, _] | _ :: _ :: _ :: _ :: _ => exact .refl _ _
      | _ => exact absurd rfl plain
  · exact .refl _ _

end Primitive

end ByteLisp
