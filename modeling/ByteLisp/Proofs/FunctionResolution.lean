import ByteLisp.Proofs.WellFormedCells

/-!
# What a call calls

A symbol stands for the content of its function cell, which may be a symbol again. Resolving a
callee follows this chain to a value that is not a symbol. It looks at the callee and at what
the next replacements lead to, at 100 values in all, so it makes 99 replacements at most and
refuses a function that the hundredth one would lead to. `indirectFunction_by_chain` says what
comes out for every chain; `hundredNames_refused` has the shortest chain that is refused though
it leads to a function.
-/

namespace ByteLisp.Environment

/-- Giving a symbol a function fills its cell and no other. -/
theorem functionCell_fset {symbol : Symbol} {definition : Value} (env : Environment)
    (filled : definition.isNil = false) (named : symbol.isNil = false) (other : Symbol) :
    (fset symbol definition env).2.functionCell other =
      if other = symbol then some definition else env.functionCell other := by
  have names : symbol.name = other.name ↔ other = symbol := by
    rw [eq_comm, Symbol.mk.injEq]
  simp [fset, filled, named, functionCell, Std.ExtTreeMap.getElem?_insert, names]

/-- So many replacements of a symbol by the content of its function cell lead from one value to
another. -/
inductive Leads (env : Environment) : Nat → Value → Value → Prop where
  | here (value : Value) : Leads env 0 value value
  | replaced {count : Nat} {value definition last : Value} {symbol : Symbol}
      (isSymbol : value.symbol? = some symbol) (filled : env.functionCell symbol = some definition)
      (onward : Leads env count definition last) : Leads env (count + 1) value last

variable {env : Environment} {callee value last : Value} {symbol : Symbol} {count steps : Nat}

namespace Leads

/-- Replacements follow one another. -/
theorem append {further : Nat} {final : Value} (leads : env.Leads count value last)
    (onward : env.Leads further last final) : env.Leads (count + further) value final := by
  induction leads with
  | here => rwa [Nat.zero_add]
  | replaced isSymbol filled _ ih =>
      rw [Nat.add_right_comm]
      exact .replaced isSymbol filled (ih onward)

/-- Whatever part of a chain one asks for, there is one that long. -/
theorem take (leads : env.Leads count value last) (within : steps ≤ count) :
    ∃ middle, env.Leads steps value middle := by
  induction leads generalizing steps with
  | here value =>
      obtain rfl := Nat.le_zero.mp within
      exact ⟨value, .here value⟩
  | @replaced count value definition last symbol isSymbol filled _ ih =>
      cases steps with
      | zero => exact ⟨value, .here value⟩
      | succ steps =>
          obtain ⟨middle, leads⟩ := ih (Nat.le_of_succ_le_succ within)
          exact ⟨middle, .replaced isSymbol filled leads⟩

/-- From a value that a chain comes back to there are chains of every length. -/
theorem exists_of_cycle (around : env.Leads (count + 1) value value) (steps : Nat) :
    ∃ last, env.Leads steps value last := by
  have long : ∀ rounds, ∃ total ≥ rounds, env.Leads total value value := by
    intro rounds
    induction rounds with
    | zero => exact ⟨0, Nat.le_refl 0, .here value⟩
    | succ rounds ih =>
        obtain ⟨total, enough, leads⟩ := ih
        exact ⟨count + 1 + total, by omega, around.append leads⟩
  obtain ⟨total, enough, leads⟩ := long steps
  exact leads.take enough

end Leads

/-! ## Looking at a number of values -/

/-- What looking at so many values of a chain comes to. -/
inductive Resolved (env : Environment) (callee : Value) (steps : Nat) (start : Value) :
    Except Fault Value → Prop where
  | found {count : Nat} {last : Value} (within : count < steps)
      (leads : env.Leads count start last) (noSymbol : last.symbol? = none) :
      Resolved env callee steps start (.ok last)
  | void {count : Nat} {last : Value} {symbol : Symbol} (within : count < steps)
      (leads : env.Leads count start last) (isSymbol : last.symbol? = some symbol)
      (empty : env.functionCell symbol = none) :
      Resolved env callee steps start (.error (.voidFunction symbol))
  | tooLong {last : Value} (leads : env.Leads steps start last) :
      Resolved env callee steps start (.error (.invalidFunction callee))

/-- One replacement before the others. -/
theorem Resolved.replaced {definition : Value} {answer : Except Fault Value}
    (isSymbol : value.symbol? = some symbol) (filled : env.functionCell symbol = some definition)
    (resolved : env.Resolved callee steps definition answer) :
    env.Resolved callee (steps + 1) value answer := by
  cases resolved with
  | found within leads noSymbol =>
      exact .found (Nat.succ_lt_succ within) (.replaced isSymbol filled leads) noSymbol
  | void within leads lastSymbol empty =>
      exact .void (Nat.succ_lt_succ within) (.replaced isSymbol filled leads) lastSymbol empty
  | tooLong leads => exact .tooLong (.replaced isSymbol filled leads)

/-- Whatever the function answers, the relation allows. -/
theorem resolved_resolve (env : Environment) (callee : Value) (steps : Nat) (start : Value) :
    env.Resolved callee steps start (env.resolve callee steps start) := by
  induction steps generalizing start with
  | zero => exact .tooLong (.here start)
  | succ steps ih =>
      unfold resolve
      split
      next noSymbol => exact .found (Nat.succ_pos steps) (.here start) noSymbol
      next symbol isSymbol =>
        split
        next definition filled => exact (ih definition).replaced isSymbol filled
        next empty => exact .void (Nat.succ_pos steps) (.here start) isSymbol empty

/-- Each replacement uses up one of the values that are looked at. -/
theorem resolve_of_leads {start : Value} (leads : env.Leads count start last) (steps : Nat) :
    env.resolve callee (count + steps) start = env.resolve callee steps last := by
  induction leads with
  | here => rw [Nat.zero_add]
  | @replaced count value definition last symbol isSymbol filled _ ih =>
      rw [functionCell] at filled
      rw [Nat.add_right_comm, resolve]
      simp only [isSymbol, filled]
      exact ih

/-- A chain has one outcome only. -/
theorem Resolved.eq_resolve {start : Value} {answer : Except Fault Value}
    (resolved : env.Resolved callee steps start answer) :
    env.resolve callee steps start = answer := by
  cases resolved with
  | found within leads noSymbol =>
      obtain ⟨further, rfl⟩ := Nat.exists_eq_add_of_lt within
      rw [Nat.add_assoc, resolve_of_leads leads, resolve]
      simp only [noSymbol]
  | void within leads isSymbol empty =>
      rw [functionCell] at empty
      obtain ⟨further, rfl⟩ := Nat.exists_eq_add_of_lt within
      rw [Nat.add_assoc, resolve_of_leads leads, resolve]
      simp only [isSymbol, empty]
  | tooLong leads => exact resolve_of_leads leads 0

/-- The function answers exactly what the relation allows. -/
theorem resolve_eq_iff {start : Value} {answer : Except Fault Value} :
    env.resolve callee steps start = answer ↔ env.Resolved callee steps start answer := by
  constructor
  · rintro rfl
    exact resolved_resolve env callee steps start
  · exact Resolved.eq_resolve

/-- For every environment and every callee: looking at 100 values of the chain that starts at
the callee, resolving it gives the first of them that is not a symbol, fails at the first symbol
among them whose function cell is empty, and fails for the callee as a whole when there are 100
replacements and more. One of the three is always the case, and a chain that comes back to one
of its values is a case of the last. -/
theorem indirectFunction_by_chain (env : Environment) (callee : Value) :
    (∀ found, env.indirectFunction callee = .ok found ↔
      ∃ count < 100, env.Leads count callee found ∧ found.symbol? = none) ∧
    (∀ symbol, env.indirectFunction callee = .error (.voidFunction symbol) ↔
      ∃ count < 100, ∃ last, env.Leads count callee last ∧ last.symbol? = some symbol ∧
        env.functionCell symbol = none) ∧
    (∀ value, env.indirectFunction callee = .error (.invalidFunction value) ↔
      value = callee ∧ ∃ last, env.Leads 100 callee last) ∧
    ((∃ found, env.indirectFunction callee = .ok found) ∨
      (∃ symbol, env.indirectFunction callee = .error (.voidFunction symbol)) ∨
      env.indirectFunction callee = .error (.invalidFunction callee)) ∧
    ∀ stem cycle value, env.Leads stem callee value → env.Leads (cycle + 1) value value →
      env.indirectFunction callee = .error (.invalidFunction callee) := by
  have outcome : ∀ answer, env.indirectFunction callee = answer ↔
      env.Resolved callee 100 callee answer := fun _ => resolve_eq_iff
  refine ⟨fun found => ?_, fun symbol => ?_, fun value => ?_, ?_, ?_⟩
  · rw [outcome]
    constructor
    · rintro ⟨within, leads, noSymbol⟩
      exact ⟨_, within, leads, noSymbol⟩
    · rintro ⟨count, within, leads, noSymbol⟩
      exact .found within leads noSymbol
  · rw [outcome]
    constructor
    · rintro (_ | ⟨within, leads, isSymbol, empty⟩)
      exact ⟨_, within, _, leads, isSymbol, empty⟩
    · rintro ⟨count, within, last, leads, isSymbol, empty⟩
      exact .void within leads isSymbol empty
  · rw [outcome]
    constructor
    · rintro (_ | _ | leads)
      exact ⟨rfl, _, leads⟩
    · rintro ⟨rfl, last, leads⟩
      exact .tooLong leads
  · cases resolved : env.indirectFunction callee with
    | ok found => exact .inl ⟨found, rfl⟩
    | error fault =>
        cases (outcome _).mp resolved with
        | void => exact .inr (.inl ⟨_, rfl⟩)
        | tooLong => exact .inr (.inr rfl)
  · intro stem cycle value leads around
    rw [outcome]
    obtain ⟨last, onward⟩ := around.exists_of_cycle 100
    obtain ⟨middle, long⟩ := (leads.append onward).take (Nat.le_add_left 100 stem)
    exact .tooLong long

/-- Two symbols that stand for each other. -/
def goingAround : Environment :=
  (fset ⟨"loop-b"⟩ (.symbol ⟨"loop-a"⟩) (fset ⟨"loop-a"⟩ (.symbol ⟨"loop-b"⟩) {}).2).2

/-- Neither of them is a function. -/
theorem goingAround_refused :
    goingAround.Leads 2 (.symbol ⟨"loop-a"⟩) (.symbol ⟨"loop-a"⟩) ∧
      goingAround.indirectFunction (.symbol ⟨"loop-a"⟩) =
        .error (.invalidFunction (.symbol ⟨"loop-a"⟩)) := by
  have there : goingAround.functionCell ⟨"loop-a"⟩ = some (.symbol ⟨"loop-b"⟩) := by
    rw [goingAround, functionCell_fset _ rfl rfl, if_neg (by decide),
      functionCell_fset _ rfl rfl, if_pos rfl]
  have back : goingAround.functionCell ⟨"loop-b"⟩ = some (.symbol ⟨"loop-a"⟩) := by
    rw [goingAround, functionCell_fset _ rfl rfl, if_pos rfl]
  have around : goingAround.Leads 2 (.symbol ⟨"loop-a"⟩) (.symbol ⟨"loop-a"⟩) :=
    .replaced rfl there (.replaced rfl back (.here _))
  obtain ⟨-, -, -, -, circular⟩ := indirectFunction_by_chain goingAround (.symbol ⟨"loop-a"⟩)
  exact ⟨around, circular 0 1 _ (.here _) around⟩

/-! ## A function under many names -/

/-- The name with so many letters. -/
def lettered (n : Nat) : Symbol :=
  ⟨String.ofList (List.replicate n 'f')⟩

/-- Different numbers have different names. -/
theorem lettered_inj {m n : Nat} : lettered m = lettered n ↔ m = n := by
  constructor
  · intro same
    have letters := congrArg (·.name.toList.length) same
    simpa [lettered] using letters
  · rintro rfl
    rfl

/-- None of these names is `nil`. -/
theorem isNil_lettered (n : Nat) : (lettered n).isNil = false := by
  rw [Bool.eq_false_iff, ne_eq, Symbol.isNil_iff]
  intro same
  have letters : List.replicate n 'f' = ['n', 'i', 'l'] := by
    simpa [lettered, Symbol.nil] using congrArg (·.name.toList) same
  have first : 'n' ∈ List.replicate n 'f' := by simp [letters]
  cases List.eq_of_mem_replicate first

/-- The function `car` by its name with so many letters, or itself. -/
def carNamed : Nat → Value
  | 0 => .primitive .car
  | n + 1 => .symbol (lettered (n + 1))

/-- Neither is a value of the chain. -/
theorem isNil_carNamed (n : Nat) : (carNamed n).isNil = false := by
  cases n with
  | zero => rfl
  | succ n => exact isNil_lettered (n + 1)

/-- The environment in which `car` has been given so many names, each after the one before. -/
def namingCar : Nat → Environment
  | 0 => {}
  | n + 1 => (fset (lettered (n + 1)) (carNamed n) (namingCar n)).2

/-- Each name of the chain is defined as the value before it. -/
theorem functionCell_namingCar {m n : Nat} (within : n < m) :
    (namingCar m).functionCell (lettered (n + 1)) = some (carNamed n) := by
  induction m with
  | zero => exact absurd within (Nat.not_lt_zero n)
  | succ m ih =>
      rw [namingCar, functionCell_fset _ (isNil_carNamed m) (isNil_lettered (m + 1))]
      simp only [lettered_inj]
      split
      next last => rw [Nat.succ.inj last]
      next earlier => exact ih (by omega)

/-- A name leads to the built-in function in as many replacements as its number says. -/
theorem leads_namingCar {m n : Nat} (within : n ≤ m) :
    (namingCar m).Leads n (carNamed n) (.primitive .car) := by
  induction n with
  | zero => exact .here _
  | succ n ih => exact .replaced rfl (functionCell_namingCar within) (ih (Nat.le_of_lt within))

/-- Up to 99 names lead to the function. -/
theorem indirectFunction_carNamed (n : Nat) :
    (namingCar n).indirectFunction (carNamed n) =
      if n < 100 then .ok (.primitive .car) else .error (.invalidFunction (carNamed n)) := by
  have leads := leads_namingCar (Nat.le_refl n)
  apply resolve_eq_iff.mpr
  split
  next few => exact .found few leads rfl
  next many =>
    obtain ⟨middle, long⟩ := leads.take (Nat.le_of_not_lt many)
    exact .tooLong long

/-- The hundredth name leads to the function by 100 replacements, and is refused. -/
theorem hundredNames_refused :
    (namingCar 100).Leads 100 (carNamed 100) (.primitive .car) ∧
      (namingCar 100).indirectFunction (carNamed 100) =
        .error (.invalidFunction (carNamed 100)) :=
  ⟨leads_namingCar (Nat.le_refl 100), indirectFunction_carNamed 100⟩

end ByteLisp.Environment
