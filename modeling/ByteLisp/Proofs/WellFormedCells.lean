import ByteLisp.Proofs.ProgramHistory

/-!
# Well-formed cells

Constants have no value cell and are never bound, so that they always stand for themselves. A
function cell that is filled holds something other than `nil`, whichever way `nil` is written,
and a symbol has each property once. Every operation of the environment preserves this, and
with it every program: `wellFormed_of_reachable` is about all that can be reached.
-/

namespace ByteLisp

namespace PropertyList

/-- The keys in order. -/
def keys (properties : PropertyList) : List Value :=
  properties.toList.map (·.1)

/-- No two keys are identical. -/
def Distinct (properties : PropertyList) : Prop :=
  properties.keys.Pairwise fun first second => first.isEq second = false

instance (properties : PropertyList) : Decidable properties.Distinct :=
  inferInstanceAs (Decidable (List.Pairwise _ _))

/-- A property that is there keeps its place and its key, another one comes at the end. -/
theorem keys_put (properties : PropertyList) (key value : Value) :
    (properties.put key value).keys =
      if properties.keys.any (·.isEq key) then properties.keys else properties.keys ++ [key] := by
  unfold put
  split
  · rename_i place found
    obtain ⟨inside, same, _⟩ := Array.findIdx?_eq_some_iff_getElem.mp found
    have present : properties.keys.any (·.isEq key) = true := by
      rw [List.any_eq_true]
      exact ⟨_, List.mem_map_of_mem (Array.getElem_mem_toList inside), same⟩
    rw [if_pos present]
    apply List.ext_getElem?
    intro index
    simp only [keys, Array.toList_modify, List.getElem?_map, List.getElem?_modify]
    cases properties.toList[index]? with
    | none => rfl
    | some property => by_cases here : place = index <;> simp [here]
  · rename_i absent
    have missing : ¬ properties.keys.any (·.isEq key) = true := by
      rw [List.any_eq_true]
      rintro ⟨known, member, same⟩
      obtain ⟨property, inside, rfl⟩ := List.mem_map.mp member
      have other := Array.findIdx?_eq_none_iff.mp absent property (Array.mem_toList_iff.mp inside)
      exact absurd same (by simp [other])
    rw [if_neg missing]
    simp [keys]

/-- A put keeps keys distinct: it replaces the value of an identical key. -/
theorem Distinct.put {properties : PropertyList} (distinct : properties.Distinct)
    (key value : Value) : (properties.put key value).Distinct := by
  unfold Distinct
  rw [keys_put]
  split
  · exact distinct
  · rename_i missing
    refine List.pairwise_append.mpr ⟨distinct, List.pairwise_singleton _ _, ?_⟩
    intro known member other last
    obtain rfl := List.mem_singleton.mp last
    simp only [List.any_eq_true, not_exists, not_and, Bool.not_eq_true] at missing
    exact missing known member

end PropertyList

namespace Environment

/-- The content of the function cell of a symbol. -/
def functionCell (env : Environment) (symbol : Symbol) : Option Value :=
  env.functions[symbol.name]?

/-- What holds of the cells and bindings of every environment that can be reached. -/
structure WellFormed (env : Environment) : Prop where
  /-- Constants have no value cell. -/
  values : ∀ symbol, symbol.isConstant = true → env.cell symbol = none
  /-- Constants are not bound. -/
  bindings : ∀ binding ∈ env.bindings, binding.symbol.isConstant = false
  /-- No function cell holds `nil`. -/
  functions : ∀ symbol definition, env.functionCell symbol = some definition →
    definition.isNil = false
  /-- The symbol `nil` has no function. -/
  nilFunction : env.functionCell Symbol.nil = none
  /-- Every symbol has each of its properties once. -/
  properties : ∀ symbol, (env.propertyList symbol).Distinct

namespace WellFormed

/-- An environment without cells is well formed. -/
theorem empty : WellFormed {} where
  values _ _ := Std.ExtTreeMap.getElem?_empty
  bindings := by simp
  functions := by simp [functionCell]
  nilFunction := Std.ExtTreeMap.getElem?_empty
  properties := by simp [propertyList, PropertyList.Distinct, PropertyList.keys]

/-- A function cell of the first environment with functions holds the built-in function with
the name of the symbol. -/
theorem functionCell_withPrimitives {symbol : Symbol} {definition : Value}
    (filled : withPrimitives.functionCell symbol = some definition) :
    ∃ primitive : Primitive, primitive.name = symbol.name ∧ definition = .primitive primitive := by
  have named : ∀ (primitives : List Primitive) (cells : Std.ExtTreeMap String Value),
      (primitives.foldl (fun cells p => cells.insert p.name (Value.primitive p)) cells)[symbol.name]?
        = some definition →
      cells[symbol.name]? = some definition ∨
        ∃ primitive : Primitive, primitive.name = symbol.name ∧
          definition = .primitive primitive := by
    intro primitives
    induction primitives with
    | nil => exact fun cells filled => .inl filled
    | cons primitive primitives ih =>
        intro cells filled
        obtain found | found := ih _ filled
        · rw [Std.ExtTreeMap.getElem?_insert] at found
          split at found
          · rename_i same
            exact .inr ⟨primitive, Std.LawfulEqCmp.compare_eq_iff_eq.mp same,
              (Option.some.inj found).symm⟩
          · exact .inl found
        · exact .inr found
  obtain found | found := named Primitive.all ∅ filled
  · simp at found
  · exact found

/-- The environment with the built-in functions is well formed. -/
theorem withPrimitives : WellFormed withPrimitives where
  values _ _ := Std.ExtTreeMap.getElem?_empty
  bindings := by simp [Environment.withPrimitives]
  functions symbol definition filled := by
    obtain ⟨primitive, _, rfl⟩ := functionCell_withPrimitives filled
    rfl
  nilFunction := by
    cases filled : Environment.withPrimitives.functionCell Symbol.nil with
    | none => rfl
    | some definition =>
        obtain ⟨primitive, named, _⟩ := functionCell_withPrimitives filled
        have other : ∀ primitive : Primitive, primitive.name ≠ "nil" := by
          intro primitive
          cases primitive <;> decide
        exact absurd named (other primitive)
  properties := by
    simp [Environment.withPrimitives, propertyList, PropertyList.Distinct, PropertyList.keys]

variable {env : Environment}

/-- Only the value cells of symbols that are not constants change. -/
theorem store (formed : env.WellFormed) {symbol : Symbol} (plain : symbol.isConstant = false)
    (content : Option Value) : (env.store symbol content).WellFormed := by
  have values : ∀ other, other.isConstant = true → (env.store symbol content).cell other = none := by
    intro other constant
    have different : symbol ≠ other := by
      rintro rfl
      rw [plain] at constant
      cases constant
    rw [cell_store, if_neg different]
    exact formed.values other constant
  cases content with
  | none => exact ⟨values, formed.bindings, formed.functions, formed.nilFunction, formed.properties⟩
  | some value =>
      exact ⟨values, formed.bindings, formed.functions, formed.nilFunction, formed.properties⟩

/-- Undoing a binding keeps cells well formed. -/
theorem undo (formed : env.WellFormed) : env.undo.WellFormed := by
  by_cases deep : 0 < env.bindingDepth
  · obtain ⟨rest, binding, innermost⟩ := Array.eq_push_of_size_ne_zero (Nat.ne_of_gt deep)
    have inForce : binding ∈ env.bindings := by
      rw [innermost]
      exact Array.mem_push_self
    have restored := formed.store (formed.bindings binding inForce) binding.previous
    rw [undo_of_bindings_eq innermost]
    refine { restored with bindings := fun other member => ?_ }
    apply formed.bindings
    rw [innermost]
    exact Array.mem_push_of_mem binding member
  · have none : env.bindings = #[] := by simpa [bindingDepth] using deep
    simpa [Environment.undo, none] using formed

/-- So does undoing several. -/
theorem undoMany (formed : env.WellFormed) (count : Nat) : (env.undoMany count).WellFormed := by
  induction count generalizing env with
  | zero => exact formed
  | succ count ih => exact ih formed.undo

/-- So does making one. -/
theorem bind (formed : env.WellFormed) (symbol : Symbol) (value : Value) :
    (Environment.bind symbol value env).2.WellFormed := by
  rw [bind_eq]
  split
  · exact formed
  · rename_i plain
    have plain : symbol.isConstant = false := eq_false_of_ne_true plain
    refine { formed.store plain (some value) with bindings := fun binding member => ?_ }
    obtain known | rfl := Array.mem_push.mp member
    · exact formed.bindings binding known
    · exact plain

/-- So does defining a function. -/
theorem fset (formed : env.WellFormed) (symbol : Symbol) (definition : Value) :
    (Environment.fset symbol definition env).2.WellFormed := by
  unfold Environment.fset
  dsimp only
  split
  · refine { formed with functions := ?_, nilFunction := ?_ }
    · intro other content filled
      simp only [functionCell, Std.ExtTreeMap.getElem?_erase] at filled
      split at filled
      · cases filled
      · exact formed.functions other content filled
    · simp only [functionCell, Std.ExtTreeMap.getElem?_erase]
      split
      · rfl
      · exact formed.nilFunction
  · rename_i present
    split
    · exact formed
    · rename_i named
      refine { formed with functions := ?_, nilFunction := ?_ }
      · intro other content filled
        simp only [functionCell, Std.ExtTreeMap.getElem?_insert] at filled
        split at filled
        · cases filled
          exact eq_false_of_ne_true present
        · exact formed.functions other content filled
      · have different : ¬ compare symbol.name Symbol.nil.name = .eq := by
          simpa [Symbol.isNil, Symbol.nil] using named
        simp only [functionCell, Std.ExtTreeMap.getElem?_insert, different, if_false]
        exact formed.nilFunction

/-- So does putting a property. -/
theorem put (formed : env.WellFormed) (symbol : Symbol) (key value : Value) :
    (Environment.put symbol key value env).2.WellFormed := by
  refine { formed with properties := fun other => ?_ }
  have changed := formed.properties symbol
  simp only [Environment.put, propertyList, Std.ExtTreeMap.getElem?_alter]
  split
  · exact changed.put key value
  · exact formed.properties other

/-- The step of a history. -/
theorem perform (formed : env.WellFormed) (operation : Operation) :
    (operation.perform env).2.WellFormed := by
  cases operation with
  | bind symbol value => exact formed.bind symbol value
  | set symbol value =>
      simp only [Operation.perform, Environment.set]
      split
      · exact formed
      · rename_i plain
        exact formed.store (eq_false_of_ne_true plain) (some value)
  | makeUnbound symbol =>
      simp only [Operation.perform, Environment.makeUnbound]
      split
      · exact formed
      · rename_i plain
        exact formed.store (eq_false_of_ne_true plain) none
  | setBound symbol value =>
      simp only [Operation.perform, Environment.setBound]
      split
      · exact formed
      · rename_i plain
        split
        · exact formed.store (eq_false_of_ne_true plain) (some value)
        · exact formed
  | unbind count =>
      simp only [Operation.perform, Environment.unbind]
      split
      · exact formed.undoMany count
      · exact formed
  | unbindTo depth => exact formed.undoMany _
  | fset symbol definition => exact formed.fset symbol definition
  | put symbol key value => exact formed.put symbol key value

/-- So does every history. -/
theorem performAll (formed : env.WellFormed) (history : List Operation) :
    (env.performAll history).WellFormed := by
  induction history generalizing env with
  | nil => exact formed
  | cons operation history ih => exact ih (formed.perform operation)

/-- So does whatever has a history. -/
theorem evolves (formed : env.WellFormed) {after : Environment} (evolves : Evolves env after) :
    after.WellFormed := by
  obtain ⟨history, rfl⟩ := evolves
  exact formed.performAll history

/-- In a well-formed environment there are three ways to say that a symbol has a function. -/
theorem functionCell_isSome_iff (formed : env.WellFormed) (symbol : Symbol) :
    ((env.functionCell symbol).isSome = true ↔ env.isFunctionBound symbol = true) ∧
      (env.isFunctionBound symbol = true ↔ (env.symbolFunction symbol).isNil = false) := by
  have functions := formed.functions symbol
  simp only [functionCell] at functions
  simp only [functionCell, isFunctionBound, symbolFunction]
  cases filled : env.functions[symbol.name]? with
  | none => simp
  | some definition => simp [functions definition filled]

end WellFormed

/-- The environments that a host can come to: it starts without functions or with the built-in
ones, and uses the operations of the environment, built-in functions and machines, in any
order, with any objects, and whether they fail or not. Environments in the midst of a run are
among them. -/
inductive Reachable : Environment → Prop where
  | empty : Reachable {}
  | withPrimitives : Reachable withPrimitives
  | operation {env : Environment} (reachable : Reachable env) (operation : Operation) :
      Reachable (operation.perform env).2
  | primitive {memory : Memory} (reachable : Reachable memory.env) (primitive : Primitive)
      (arguments : List Value) : Reachable (primitive.call arguments memory).2.env
  | call {context after : Context} {fuel : Nat} {callee : Value} {arguments : List Value}
      {result : Result} (reachable : Reachable context.memory.env)
      (returned : context.call fuel callee arguments = some (result, after)) :
      Reachable after.memory.env
  | invoke {context after : Context} {fuel : Nat} {address : Address} {arguments : List Value}
      {result : Result} (reachable : Reachable context.memory.env)
      (returned : context.invoke fuel address arguments = some (result, after)) :
      Reachable after.memory.env
  | running {context : Context} {callee : Value} {arguments : List Value} {machine : Machine}
      {phase : Machine.Phase} (reachable : Reachable context.memory.env)
      (starts : context.Starts callee arguments machine)
      (reached : Machine.Phase.Reaches (.running machine) phase) :
      Reachable phase.context.memory.env

/-- What a history leads to from a reachable environment is reachable. -/
theorem Reachable.performAll {env : Environment} (reachable : Reachable env)
    (history : List Operation) : Reachable (env.performAll history) := by
  induction history generalizing env with
  | nil => exact reachable
  | cons operation history ih => exact ih (reachable.operation operation)

/-- Every reachable environment is well formed. -/
theorem Reachable.wellFormed {env : Environment} (reachable : Reachable env) : env.WellFormed := by
  induction reachable with
  | empty => exact .empty
  | withPrimitives => exact .withPrimitives
  | operation _ operation ih => exact ih.perform operation
  | primitive _ primitive arguments ih => exact ih.evolves (primitive.historic_call arguments _)
  | call _ returned ih => exact ih.evolves (Context.evolves_call returned)
  | invoke _ returned ih =>
      rw [Context.invoke_eq_call] at returned
      exact ih.evolves (Context.evolves_call returned)
  | running _ starts reached ih => exact ih.evolves (starts.evolves reached)

/-- In every environment that can be reached, a constant has no value cell and is not bound,
and evaluates to itself; a function cell is filled exactly when the symbol counts as having a
function, and exactly when that function is not `nil`; `nil` has no function; and no property
list has two identical keys. -/
theorem wellFormed_of_reachable (env : Environment) (reachable : Reachable env) :
    (∀ symbol, symbol.isConstant = true →
      env.cell symbol = none ∧ (∀ binding ∈ env.bindings, binding.symbol ≠ symbol) ∧
        env.symbolValue symbol = .ok (Value.ofSymbol symbol)) ∧
    (∀ symbol definition, env.functionCell symbol = some definition →
      definition.isNil = false) ∧
    (∀ symbol,
      ((env.functionCell symbol).isSome = true ↔ env.isFunctionBound symbol = true) ∧
      (env.isFunctionBound symbol = true ↔ (env.symbolFunction symbol).isNil = false)) ∧
    env.functionCell Symbol.nil = none ∧
    ∀ symbol, (env.propertyList symbol).keys.Pairwise fun first second =>
      first.isEq second = false := by
  have formed := reachable.wellFormed
  refine ⟨fun symbol constant => ⟨formed.values symbol constant, ?_, ?_⟩, formed.functions,
    formed.functionCell_isSome_iff, formed.nilFunction, formed.properties⟩
  · rintro binding inForce rfl
    rw [formed.bindings binding inForce] at constant
    cases constant
  · simp only [symbolValue, lookup, constant, if_true]

/-- A history that tries to fill the cells of constants, fills and empties a function cell with
both forms of `nil`, and gives a symbol one property under both of them. -/
def hostileHistory : List Operation :=
  [.set .nil (.int 1), .bind .t (.int 1), .set ⟨":key"⟩ (.int 1), .fset .nil (.int 1),
   .fset ⟨"f"⟩ (.int 1), .fset ⟨"f"⟩ (.symbol .nil), .bind ⟨"x"⟩ (.int 1),
   .put ⟨"x"⟩ .nil (.int 1), .put ⟨"x"⟩ (.symbol .nil) (.int 2)]

/-- Of all this only the binding and the property remain. -/
theorem wellFormed_after_hostileHistory :
    Reachable (performAll {} hostileHistory) ∧
    (performAll {} hostileHistory).cell ⟨":key"⟩ = none ∧
    (performAll {} hostileHistory).functionCell .nil = none ∧
    (performAll {} hostileHistory).isFunctionBound ⟨"f"⟩ = false ∧
    (performAll {} hostileHistory).bindingDepth = 1 ∧
    (performAll {} hostileHistory).propertyList ⟨"x"⟩ = #[(.nil, .int 2)] := by
  have reachable : Reachable (performAll {} hostileHistory) := Reachable.empty.performAll _
  obtain ⟨constants, _, _, none, _⟩ := wellFormed_of_reachable _ reachable
  refine ⟨reachable, (constants ⟨":key"⟩ (by decide)).1, none, ?_⟩
  decide +kernel

end Environment

end ByteLisp
