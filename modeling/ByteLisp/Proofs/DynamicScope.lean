import ByteLisp.Proofs.DataFaults

/-!
# Dynamic scope

A binding remembers the content that the value cell of its symbol had before. What
a cell will hold once the bindings from some depth on are undone is therefore
decided by the outermost of them that is for the symbol, and by the present
content of the cell only where there is none. `Environment.outerCell` is that
content. Binding and undoing bindings above the depth do not change it at all, and
an assignment changes it for one symbol at most.
-/

namespace ByteLisp

namespace Environment

/-- The content of the value cell of a symbol. -/
def cell (env : Environment) (symbol : Symbol) : Option Value :=
  env.values[symbol.name]?

@[simp] theorem bindings_store (env : Environment) (symbol : Symbol) (content : Option Value) :
    (env.store symbol content).bindings = env.bindings := by
  cases content <;> rfl

/-- Storing changes the cell of one symbol. -/
@[simp] theorem cell_store (env : Environment) (symbol other : Symbol) (content : Option Value) :
    (env.store symbol content).cell other =
      if symbol = other then content else env.cell other := by
  have names : symbol.name = other.name ↔ symbol = other := by
    cases symbol
    cases other
    simp
  cases content with
  | none => simp [store, cell, Std.ExtTreeMap.getElem?_erase, names]
  | some value => simp [store, cell, Std.ExtTreeMap.getElem?_insert, names]

/-- The content that the value cell of a symbol has once the bindings from `floor`
on are undone. -/
def outerCell (env : Environment) (floor : Nat) (symbol : Symbol) : Option Value :=
  match (env.bindings.toList.drop floor).find? (·.symbol = symbol) with
  | some binding => binding.previous
  | none => env.cell symbol

/-- Where no binding is to be undone, the content is the present one. -/
@[simp] theorem outerCell_bindingDepth (env : Environment) (symbol : Symbol) :
    env.outerCell env.bindingDepth symbol = env.cell symbol := by
  have none : env.bindings.toList.drop env.bindingDepth = [] := by simp [bindingDepth]
  simp only [outerCell, none, List.find?_nil]

/-- The outer content depends on the bindings and on the cell of the symbol alone. -/
theorem outerCell_congr {before after : Environment} {floor : Nat} {symbol : Symbol}
    (bindings : after.bindings = before.bindings) (cells : after.cell symbol = before.cell symbol) :
    after.outerCell floor symbol = before.outerCell floor symbol := by
  simp only [outerCell, bindings, cells]

/-- A change that leaves the bindings alone, and the value cells of the symbols that
`kept` names. -/
structure Keeps (kept : Symbol → Prop) (before after : Environment) : Prop where
  bindings : after.bindings = before.bindings
  cells : ∀ symbol, kept symbol → after.cell symbol = before.cell symbol

namespace Keeps

variable {kept : Symbol → Prop} {before after : Environment}

/-- What is left as it is keeps every cell. -/
theorem refl (kept : Symbol → Prop) (env : Environment) : Keeps kept env env :=
  ⟨rfl, fun _ _ => rfl⟩

/-- What keeps these cells keeps fewer of them. -/
theorem mono {fewer : Symbol → Prop} (keeps : Keeps kept before after)
    (among : ∀ symbol, fewer symbol → kept symbol) : Keeps fewer before after :=
  ⟨keeps.bindings, fun symbol isKept => keeps.cells symbol (among symbol isKept)⟩

end Keeps

/-- An assignment leaves the bindings and all other cells alone. -/
theorem keeps_store (env : Environment) (symbol : Symbol) (content : Option Value) :
    Keeps (· ≠ symbol) env (env.store symbol content) := by
  refine ⟨bindings_store env symbol content, fun other different => ?_⟩
  rw [cell_store, if_neg (Ne.symm different)]

/-- An environment with one more binding. -/
def bound (env : Environment) (symbol : Symbol) (value : Value) : Environment :=
  { env.store symbol (some value) with bindings := env.bindings.push ⟨symbol, env.cell symbol⟩ }

/-- Binding makes one more binding, or refuses a constant and changes nothing. -/
theorem bind_eq (symbol : Symbol) (value : Value) (env : Environment) :
    Environment.bind symbol value env =
      if symbol.isConstant then (.error (.settingConstant symbol), env)
      else (.ok (), env.bound symbol value) := by
  unfold Environment.bind
  split
  · rfl
  · rfl

/-- A binding remembers what the cell held before. -/
@[simp] theorem bindings_bound (env : Environment) (symbol : Symbol) (value : Value) :
    (env.bound symbol value).bindings.toList =
      env.bindings.toList ++ [⟨symbol, env.cell symbol⟩] := by
  simp [bound]

/-- In a binding the cell holds the new value. -/
@[simp] theorem cell_bound (env : Environment) (symbol other : Symbol) (value : Value) :
    (env.bound symbol value).cell other = if symbol = other then some value else env.cell other :=
  cell_store env symbol other (some value)

/-- A new binding remembers what the cell would otherwise have kept. -/
theorem outerCell_bound {env : Environment} {floor : Nat} (deep : floor ≤ env.bindingDepth)
    (symbol other : Symbol) (value : Value) :
    (env.bound symbol value).outerCell floor other = env.outerCell floor other := by
  have length : floor ≤ env.bindings.toList.length := by simpa [bindingDepth] using deep
  simp only [outerCell, bindings_bound, List.drop_append_of_le_length length, List.find?_append,
    cell_bound]
  cases (env.bindings.toList.drop floor).find? (·.symbol = other) with
  | some binding => rfl
  | none =>
      by_cases same : symbol = other
      · simp [same]
      · simp [same]

/-- Undoing puts back what the innermost binding remembers. -/
theorem undo_of_bindings_eq {env : Environment} {rest : Array Binding} {binding : Binding}
    (innermost : env.bindings = rest.push binding) :
    env.undo = { env.store binding.symbol binding.previous with bindings := rest } := by
  obtain ⟨values, functions, properties, bindings⟩ := env
  subst innermost
  obtain ⟨symbol, previous⟩ := binding
  cases previous <;> simp [undo, store]

/-- Undoing takes away one binding, if there is one. -/
theorem bindingDepth_undo (env : Environment) : env.undo.bindingDepth = env.bindingDepth - 1 := by
  by_cases deep : 0 < env.bindingDepth
  · obtain ⟨rest, binding, innermost⟩ := Array.eq_push_of_size_ne_zero (Nat.ne_of_gt deep)
    rw [undo_of_bindings_eq innermost]
    simp [bindingDepth, innermost]
  · have none : env.bindings = #[] := by simpa [bindingDepth] using deep
    simp [undo, bindingDepth, none]

/-- Undoing a binding from `floor` on puts back what it remembers. -/
theorem outerCell_undo {env : Environment} {floor : Nat} (deep : floor < env.bindingDepth)
    (symbol : Symbol) : env.undo.outerCell floor symbol = env.outerCell floor symbol := by
  obtain ⟨rest, binding, innermost⟩ := Array.eq_push_of_size_ne_zero (Nat.ne_zero_of_lt deep)
  have length : floor ≤ rest.toList.length := by
    simp only [bindingDepth, innermost, Array.size_push] at deep
    simpa using Nat.le_of_lt_succ deep
  have content : env.undo.cell symbol =
      if binding.symbol = symbol then binding.previous else env.cell symbol := by
    rw [undo_of_bindings_eq innermost]
    exact cell_store env binding.symbol symbol binding.previous
  have below : env.undo.bindings = rest := by rw [undo_of_bindings_eq innermost]
  simp only [outerCell, innermost, below, content, Array.toList_push,
    List.drop_append_of_le_length length, List.find?_append]
  cases (rest.toList.drop floor).find? (·.symbol = symbol) with
  | some outer => rfl
  | none =>
      by_cases same : binding.symbol = symbol
      · simp [same]
      · simp [same]

/-- Undoing the bindings of `after` from `floor` on leads back to `before`: the
bindings below are the same, and so are the outer contents of the symbols that
`kept` names. -/
structure Restores (floor : Nat) (kept : Symbol → Prop) (before after : Environment) : Prop where
  deep : floor ≤ after.bindingDepth
  below : after.bindings.toList.take floor = before.bindings.toList.take floor
  outer : ∀ symbol, kept symbol → after.outerCell floor symbol = before.outerCell floor symbol

namespace Restores

variable {floor : Nat} {kept : Symbol → Prop} {before middle after : Environment}

/-- What is left as it is restores everything. -/
theorem refl (kept : Symbol → Prop) (deep : floor ≤ before.bindingDepth) :
    Restores floor kept before before where
  deep := deep
  below := rfl
  outer _ _ := rfl

/-- What restores step after step restores in all. -/
theorem trans (first : Restores floor kept before middle)
    (second : Restores floor kept middle after) : Restores floor kept before after where
  deep := second.deep
  below := second.below.trans first.below
  outer symbol isKept := (second.outer symbol isKept).trans (first.outer symbol isKept)

/-- What restores these cells restores fewer of them. -/
theorem mono {fewer : Symbol → Prop} (restores : Restores floor kept before after)
    (among : ∀ symbol, fewer symbol → kept symbol) : Restores floor fewer before after where
  deep := restores.deep
  below := restores.below
  outer symbol isKept := restores.outer symbol (among symbol isKept)

/-- What keeps the bindings and the cells restores them. -/
theorem of_keeps (deep : floor ≤ before.bindingDepth) (keeps : Keeps kept before after) :
    Restores floor kept before after where
  deep := by simpa only [bindingDepth, keeps.bindings] using deep
  below := by rw [keeps.bindings]
  outer symbol isKept := outerCell_congr keeps.bindings (keeps.cells symbol isKept)

/-- With no bindings left above the floor everything is as it was. -/
theorem keeps (restores : Restores before.bindingDepth kept before after)
    (undone : after.bindingDepth = before.bindingDepth) : Keeps kept before after where
  bindings := by
    have below := restores.below
    simp only [bindingDepth] at undone
    rw [List.take_of_length_le (by simp [bindingDepth, undone]),
      List.take_of_length_le (by simp [bindingDepth])] at below
    exact Array.toList_inj.mp below
  cells symbol isKept := by
    have outer := restores.outer symbol isKept
    rwa [outerCell_bindingDepth, ← undone, outerCell_bindingDepth] at outer

end Restores

/-- A binding can be undone, so the outer cells are restored. -/
theorem restores_bind {env : Environment} {floor : Nat} (kept : Symbol → Prop)
    (deep : floor ≤ env.bindingDepth) (symbol : Symbol) (value : Value) :
    Restores floor kept env (Environment.bind symbol value env).2 := by
  rw [bind_eq]
  split
  · exact .refl kept deep
  · have length : floor ≤ env.bindings.toList.length := by simpa [bindingDepth] using deep
    refine ⟨?_, ?_, fun other _ => outerCell_bound deep symbol other value⟩
    · simp only [bindingDepth, bound, Array.size_push]
      exact Nat.le_succ_of_le deep
    · rw [bindings_bound, List.take_append_of_le_length length]

/-- Undoing a binding above the floor leaves what is below it. -/
theorem restores_undo {env : Environment} {floor : Nat} (kept : Symbol → Prop)
    (deep : floor < env.bindingDepth) : Restores floor kept env env.undo := by
  refine ⟨?_, ?_, fun symbol _ => outerCell_undo deep symbol⟩
  · rw [bindingDepth_undo]
    exact Nat.le_sub_one_of_lt deep
  · obtain ⟨rest, binding, innermost⟩ := Array.eq_push_of_size_ne_zero (Nat.ne_zero_of_lt deep)
    have length : floor ≤ rest.toList.length := by
      simp only [bindingDepth, innermost, Array.size_push] at deep
      simpa using Nat.le_of_lt_succ deep
    rw [undo_of_bindings_eq innermost, innermost, Array.toList_push,
      List.take_append_of_le_length length]

/-- Undoing takes away as many bindings as are asked for. -/
theorem bindingDepth_undoMany (count : Nat) (env : Environment) :
    (env.undoMany count).bindingDepth = env.bindingDepth - count := by
  induction count generalizing env with
  | zero => rfl
  | succ count inductionHypothesis =>
      rw [undoMany, inductionHypothesis, bindingDepth_undo]
      omega

/-- Undoing bindings, none of them below the floor. -/
theorem restores_undoMany {env : Environment} {floor count : Nat} (kept : Symbol → Prop)
    (deep : floor + count ≤ env.bindingDepth) :
    Restores floor kept env (env.undoMany count) := by
  induction count generalizing env with
  | zero => exact .refl kept deep
  | succ count inductionHypothesis =>
      have above : floor < env.bindingDepth := by omega
      have rest : floor + count ≤ env.undo.bindingDepth := by
        rw [bindingDepth_undo]
        omega
      exact (restores_undo kept above).trans (inductionHypothesis rest)

/-- Undoing down to a depth above the floor leaves what is below it. -/
theorem restores_unbindTo {env : Environment} {floor depth : Nat} (kept : Symbol → Prop)
    (above : floor ≤ depth) (deep : depth ≤ env.bindingDepth) :
    Restores floor kept env (env.unbindTo depth).2 :=
  restores_undoMany kept (by omega)

/-- Undoing down to a depth ends at that depth. -/
theorem bindingDepth_unbindTo {env : Environment} {depth : Nat} (deep : depth ≤ env.bindingDepth) :
    (env.unbindTo depth).2.bindingDepth = depth := by
  simp only [unbindTo, bindingDepth_undoMany]
  omega

end Environment

end ByteLisp
