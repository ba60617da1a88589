import ByteLisp.Proofs.Scoping
import Mathlib.Data.List.Infix

/-!
# Histories of an environment

A history is a sequence of operations on an environment, failing ones among them. As
long as it does not undo bindings that were in force when it started, all that it has
bound can be undone at its end. What then remains of it in a value cell are the
assignments that were made while the symbol was not bound anew, and the last of them
decides the content. `cells_after_history` says this of every history and every symbol.
-/

namespace ByteLisp

namespace Environment

/-- An operation on an environment. -/
inductive Operation where
  | bind (symbol : Symbol) (value : Value)
  | set (symbol : Symbol) (value : Value)
  | setBound (symbol : Symbol) (value : Value)
  | makeUnbound (symbol : Symbol)
  | unbind (count : Nat)
  | unbindTo (depth : Nat)
  | fset (symbol : Symbol) (definition : Value)
  | put (symbol : Symbol) (key value : Value)
deriving DecidableEq, Repr

namespace Operation

/-- Carries the operation out. -/
def perform : Operation → EnvM Unit
  | bind symbol value => Environment.bind symbol value
  | set symbol value => Environment.set symbol value
  | setBound symbol value => Environment.setBound symbol value
  | makeUnbound symbol => Environment.makeUnbound symbol
  | unbind count => Environment.unbind count
  | unbindTo depth => fun env => (.ok (), (env.unbindTo depth).2)
  | fset symbol definition => Environment.fset symbol definition
  | put symbol key value => Environment.put symbol key value

/-- The symbol whose value cell the operation assigns, and the content that it is to have. -/
def assignment? : Operation → Option (Symbol × Option Value)
  | set symbol value | setBound symbol value => some (symbol, some value)
  | makeUnbound symbol => some (symbol, none)
  | _ => none

end Operation

/-- The environment at the end of a history. An operation that fails does not end the
history. -/
def performAll (env : Environment) (history : List Operation) : Environment :=
  history.foldl (fun env operation => (operation.perform env).2) env

/-- None of the bindings from `floor` on is for the symbol. -/
def Unshadowed (env : Environment) (floor : Nat) (symbol : Symbol) : Prop :=
  ∀ binding ∈ env.bindings.toList.drop floor, binding.symbol ≠ symbol

instance (env : Environment) (floor : Nat) (symbol : Symbol) :
    Decidable (env.Unshadowed floor symbol) :=
  inferInstanceAs (Decidable (∀ binding ∈ env.bindings.toList.drop floor, binding.symbol ≠ symbol))

/-- The content that the operation gives the value cell of the symbol for good: it assigns
the symbol, it succeeds, and no binding from `floor` on is for the symbol. -/
def lasting? (env : Environment) (floor : Nat) (symbol : Symbol) (operation : Operation) :
    Option (Option Value) :=
  match operation.assignment? with
  | some (name, content) =>
    if name = symbol ∧ (operation.perform env).1.isOk = true ∧ env.Unshadowed floor symbol then
      some content
    else none
  | none => none

/-- The contents that a history gives the value cell of the symbol for good, in order. -/
def lastingContents (floor : Nat) (symbol : Symbol) :
    Environment → List Operation → List (Option Value)
  | _, [] => []
  | env, operation :: history =>
    (env.lasting? floor symbol operation).toList ++
      lastingContents floor symbol (operation.perform env).2 history

/-! ## One operation -/

/-- Defining a function touches no value cell. -/
theorem keeps_fset (kept : Symbol → Prop) (env : Environment) (symbol : Symbol)
    (definition : Value) : Keeps kept env (fset symbol definition env).2 := by
  unfold fset
  dsimp only
  split
  · exact ⟨rfl, fun _ _ => rfl⟩
  · split
    · exact .refl _ _
    · exact ⟨rfl, fun _ _ => rfl⟩

/-- An assignment outside of all bindings from `floor` on is seen once these are undone;
within one of them it is not. -/
theorem outerCell_store (env : Environment) (floor : Nat) (symbol : Symbol)
    (content : Option Value) :
    (env.store symbol content).outerCell floor symbol =
      if env.Unshadowed floor symbol then content else env.outerCell floor symbol := by
  simp only [outerCell, bindings_store, cell_store, if_true]
  cases found : (env.bindings.toList.drop floor).find? (·.symbol = symbol) with
  | none =>
      have free : env.Unshadowed floor symbol := by simpa [Unshadowed] using found
      rw [if_pos free]
  | some binding =>
      have shadowed : ¬ env.Unshadowed floor symbol := by
        intro free
        have isFor : binding.symbol = symbol := by simpa using List.find?_some found
        exact free binding (List.mem_of_find?_eq_some found) isFor
      rw [if_neg shadowed]

namespace Operation

/-- An assignment is made, or it fails and nothing changes. -/
theorem perform_assignment {operation : Operation} {symbol : Symbol} {content : Option Value}
    (assigns : operation.assignment? = some (symbol, content)) (env : Environment) :
    operation.perform env = (.ok (), env.store symbol content) ∨
      ∃ fault, operation.perform env = (.error fault, env) := by
  cases operation with
  | set name value =>
      cases assigns
      simp only [perform, Environment.set]
      split
      · exact .inr ⟨_, rfl⟩
      · exact .inl rfl
  | setBound name value =>
      cases assigns
      simp only [perform, Environment.setBound]
      split
      · exact .inr ⟨_, rfl⟩
      · split
        · exact .inl rfl
        · exact .inr ⟨_, rfl⟩
  | makeUnbound name =>
      cases assigns
      simp only [perform, Environment.makeUnbound]
      split
      · exact .inr ⟨_, rfl⟩
      · exact .inl rfl
  | bind | unbind | unbindTo | fset | put => cases assigns

/-- An operation that does not assign the symbol, and undoes no bindings below the floor,
can be undone. -/
theorem restores_perform {env : Environment} {floor : Nat} (operation : Operation)
    (deep : floor ≤ env.bindingDepth) (stays : floor ≤ (operation.perform env).2.bindingDepth) :
    Restores floor (fun symbol => ∀ content, operation.assignment? ≠ some (symbol, content)) env
      (operation.perform env).2 := by
  cases assigns : operation.assignment? with
  | some assignment =>
      obtain ⟨name, content⟩ := assignment
      refine .of_keeps deep ?_
      obtain performed | ⟨fault, performed⟩ := perform_assignment assigns env
      · rw [performed]
        refine (keeps_store env name content).mono fun symbol other same => ?_
        exact other content (by rw [same])
      · rw [performed]
        exact .refl _ env
  | none =>
      cases operation with
      | set | setBound | makeUnbound => cases assigns
      | bind symbol value => exact restores_bind _ deep symbol value
      | fset symbol definition => exact .of_keeps deep (keeps_fset _ env symbol definition)
      | put symbol key value => exact .of_keeps deep ⟨rfl, fun _ _ => rfl⟩
      | unbind count =>
          simp only [perform, Environment.unbind] at stays ⊢
          split
          · rename_i enough
            rw [if_pos enough, bindingDepth_undoMany] at stays
            exact restores_undoMany _ (by omega)
          · exact .refl _ deep
      | unbindTo depth =>
          simp only [perform, Environment.unbindTo, bindingDepth_undoMany] at stays
          exact restores_undoMany _ (by omega)

/-- The step of a history: what an operation gives a value cell for good is its outer
content from then on, and every other operation leaves the outer content alone. -/
theorem outerCell_perform {env : Environment} {floor : Nat} (operation : Operation)
    (deep : floor ≤ env.bindingDepth) (stays : floor ≤ (operation.perform env).2.bindingDepth)
    (symbol : Symbol) :
    (operation.perform env).2.outerCell floor symbol =
      (env.lasting? floor symbol operation).getD (env.outerCell floor symbol) := by
  have others := (restores_perform operation deep stays).outer symbol
  cases assigns : operation.assignment? with
  | none =>
      simp only [lasting?, assigns, Option.getD_none]
      exact others fun content => by simp [assigns]
  | some assignment =>
      obtain ⟨name, content⟩ := assignment
      by_cases same : name = symbol
      · subst same
        obtain performed | ⟨fault, performed⟩ := perform_assignment assigns env
        · have succeeded : (operation.perform env).1.isOk = true := by
            rw [performed]
            rfl
          rw [performed, outerCell_store]
          simp only [lasting?, assigns, succeeded, true_and]
          split <;> rfl
        · have failed : (operation.perform env).1.isOk = false := by
            rw [performed]
            rfl
          rw [performed]
          simp [lasting?, assigns, failed]
      · simp only [lasting?, assigns, same, false_and, if_false, Option.getD_none]
        exact others fun content => by simp [assigns, same]

end Operation

/-! ## Whole histories -/

/-- A history is performed from its first operation on. -/
theorem performAll_cons (env : Environment) (operation : Operation) (history : List Operation) :
    env.performAll (operation :: history) = (operation.perform env).2.performAll history :=
  rfl

/-- A history that keeps above the floor leaves the bindings below it alone, and the outer
content of every value cell is the last that it has given the cell for good. -/
theorem outerCell_performAll {floor : Nat} (history : List Operation) (env : Environment)
    (deep : ∀ earlier, earlier <+: history → floor ≤ (env.performAll earlier).bindingDepth) :
    (env.performAll history).bindings.toList.take floor = env.bindings.toList.take floor ∧
      ∀ symbol, (env.performAll history).outerCell floor symbol =
        (lastingContents floor symbol env history).getLastD (env.outerCell floor symbol) := by
  induction history generalizing env with
  | nil => exact ⟨rfl, fun _ => rfl⟩
  | cons operation history ih =>
      have before : floor ≤ env.bindingDepth := deep [] List.nil_prefix
      have stays : floor ≤ (operation.perform env).2.bindingDepth :=
        deep [operation] (List.prefix_append [operation] history)
      obtain ⟨below, outer⟩ := ih (operation.perform env).2 fun earlier isPrefix =>
        deep (operation :: earlier) (List.cons_prefix_cons.mpr ⟨rfl, isPrefix⟩)
      rw [performAll_cons]
      refine ⟨below.trans (operation.restores_perform before stays).below, fun symbol => ?_⟩
      rw [outer, operation.outerCell_perform before stays, lastingContents]
      cases env.lasting? floor symbol operation with
      | none => rfl
      | some content => exact (List.getLastD_cons ..).symm

/-- Undoing what a history has bound, a history that undid no earlier bindings, brings
back the bindings from before it. In every value cell there is the last content that was
assigned while no new binding was for the symbol, and the content from before where there
was no such assignment. -/
theorem cells_after_history (env : Environment) (history : List Operation)
    (deep : ∀ earlier, earlier <+: history →
      env.bindingDepth ≤ (env.performAll earlier).bindingDepth) :
    ((env.performAll history).unbindTo env.bindingDepth).2.bindings = env.bindings ∧
      ∀ symbol, ((env.performAll history).unbindTo env.bindingDepth).2.cell symbol =
        (lastingContents env.bindingDepth symbol env history).getLastD (env.cell symbol) := by
  have ended : env.bindingDepth ≤ (env.performAll history).bindingDepth :=
    deep history (List.prefix_refl history)
  have depth := bindingDepth_unbindTo ended
  obtain ⟨below, outer⟩ := outerCell_performAll history env deep
  have undone := restores_unbindTo (fun _ => True) (Nat.le_refl _) ended
  constructor
  · have restored : Restores env.bindingDepth (fun _ => False) env
        ((env.performAll history).unbindTo env.bindingDepth).2 :=
      ⟨undone.deep, undone.below.trans below, fun _ isKept => isKept.elim⟩
    exact (restored.keeps depth).bindings
  · intro symbol
    have present :=
      outerCell_bindingDepth ((env.performAll history).unbindTo env.bindingDepth).2 symbol
    rw [depth] at present
    rw [← present, undone.outer symbol trivial, outer, outerCell_bindingDepth]

/-- An environment in which one symbol is bound. -/
def oneBinding : Environment :=
  performAll {} [.bind ⟨"z"⟩ (.int 0)]

/-- A history that assigns a symbol, binds it twice over, and assigns it again under the
bindings. -/
def shadowingHistory : List Operation :=
  [.set ⟨"x"⟩ (.int 1), .bind ⟨"x"⟩ (.int 2), .set ⟨"x"⟩ (.int 3), .bind ⟨"x"⟩ (.int 4),
   .makeUnbound ⟨"x"⟩, .setBound ⟨"x"⟩ (.int 5), .unbind 1, .makeUnbound ⟨"x"⟩, .bind ⟨"z"⟩ .nil]

/-- Only the first assignment remains, and the bound symbol has its value again. -/
theorem cells_after_shadowingHistory :
    (∀ earlier, earlier <+: shadowingHistory →
      oneBinding.bindingDepth ≤ (oneBinding.performAll earlier).bindingDepth) ∧
    ((oneBinding.performAll shadowingHistory).unbindTo oneBinding.bindingDepth).2.bindings =
      #[⟨⟨"z"⟩, none⟩] ∧
    ((oneBinding.performAll shadowingHistory).unbindTo oneBinding.bindingDepth).2.cell ⟨"x"⟩ =
      some (.int 1) ∧
    ((oneBinding.performAll shadowingHistory).unbindTo oneBinding.bindingDepth).2.cell ⟨"z"⟩ =
      some (.int 0) := by
  have deep : ∀ earlier ∈ shadowingHistory.inits,
      oneBinding.bindingDepth ≤ (oneBinding.performAll earlier).bindingDepth := by
    decide +kernel
  simp only [List.mem_inits] at deep
  obtain ⟨bindings, cells⟩ := oneBinding.cells_after_history shadowingHistory deep
  refine ⟨deep, bindings.trans ?_, (cells ⟨"x"⟩).trans ?_, (cells ⟨"z"⟩).trans ?_⟩
  all_goals decide +kernel

end Environment

end ByteLisp
