import ByteLisp.Machine.Execute
import ByteLisp.Proofs.SteadyActions

/-!
# What instructions are made of

Every instruction is a sequence of operations on the operand stack and of steady actions on
the memory. Two make or undo bindings, and both count what they do. `Execute.composed_operation`
says so once for all operations; what holds of the parts and of sequences holds of them all.
-/

namespace ByteLisp

open ExecM

/-- The program is put together from the parts of instructions. -/
inductive ExecM.Composed : {α : Type} → ExecM α → Prop where
  | pure {α : Type} (value : α) : Composed (pure value)
  | bind {α β : Type} {program : ExecM α} {rest : α → ExecM β} (first : Composed program)
      (next : ∀ value, Composed (rest value)) : Composed (program >>= rest)
  | onStack {α : Type} (operation : StackM α) : Composed (onStack operation)
  | steady {α : Type} {action : Action α} (steady : action.Steady) : Composed (perform action)
  /-- A binding is made and counted. -/
  | binding (symbol : Symbol) (value : Value) :
      Composed (do
        perform (Action.onEnv (Environment.bind symbol value))
        count (·.recordBound 1)
        return Flow.next)
  /-- Bindings are undone and counted. -/
  | unbinding (base requested : Nat) : Composed (Execute.unbind base requested)

namespace Execute

/-- A value is pushed and the next instruction follows. -/
theorem composed_push (value : Value) : Composed (push value >>= fun _ => pure Flow.next) :=
  .bind (.onStack _) fun _ => .pure _

/-- The result of a steady action is pushed. -/
theorem composed_answer {action : Action Value} (steady : action.Steady) :
    Composed (perform action >>= fun result => push result >>= fun _ => pure Flow.next) :=
  .bind (.steady steady) composed_push

/-- An instruction with one operand, whose operation is steady. -/
theorem composed_unary {operation : Value → Action Value} (steady : ∀ x, (operation x).Steady) :
    Composed (unary operation) :=
  .bind (.onStack _) fun x => composed_answer (steady x)

/-- An instruction with two operands, whose operation is steady. -/
theorem composed_binary {operation : Value → Value → Action Value}
    (steady : ∀ a b, (operation a b).Steady) : Composed (binary operation) :=
  .bind (.onStack _) fun b => .bind (.onStack _) fun a => composed_answer (steady a b)

/-- An instruction with three operands, whose operation is steady. -/
theorem composed_ternary {operation : Value → Value → Value → Action Value}
    (steady : ∀ a b c, (operation a b c).Steady) : Composed (ternary operation) :=
  .bind (.onStack _) fun c => .bind (.onStack _) fun b => .bind (.onStack _) fun a =>
    composed_answer (steady a b c)

/-- An instruction with a counted number of operands, whose operation is steady. -/
theorem composed_variadic {operation : List Value → Action Value}
    (steady : ∀ items, (operation items).Steady) (count : Nat) :
    Composed (variadic count operation) :=
  .bind (.onStack _) fun items => composed_answer (steady items)

/-- A copy of a slot is pushed. -/
theorem composed_copy (slot : Nat) : Composed (copy slot) :=
  .bind (.onStack _) composed_push

/-- A conditional jump pops a value and looks at it. -/
theorem composed_jumpIf (wanted : Value → Bool) (target : Nat) :
    Composed (jumpIf wanted target) := by
  refine .bind (.onStack _) fun value => ?_
  split
  · exact .pure _
  · exact .pure _

/-- A conditional jump that pops the value only when it does not jump. -/
theorem composed_jumpElsePop (wanted : Value → Bool) (target : Nat) :
    Composed (jumpElsePop wanted target) := by
  refine .bind (.onStack _) fun value => ?_
  split
  · exact .pure _
  · exact .bind (.onStack _) fun _ => .pure _

/-- Values are dropped, with or without the one on top of them. -/
theorem composed_discard (operand : Nat) : Composed (discard operand) := by
  have dropped : Composed
      (onStack (OperandStack.dropMany (operand % 128)) >>= fun _ => pure Flow.next) :=
    .bind (.onStack _) fun _ => .pure _
  unfold discard
  dsimp only
  split
  · exact .bind (.onStack _) fun _ => .bind (.onStack _) fun _ => dropped
  · exact dropped

/-- A value is popped and stored into a slot. The slot that it came from needs no storing. -/
theorem composed_store (slot : Nat) : Composed (store slot) := by
  refine .bind (.onStack _) fun value => ?_
  dsimp only
  split
  · exact .bind (.onStack _) fun _ => .pure _
  · exact .pure _

/-- Every operation is put together from these parts. -/
theorem composed_operation (constants : Array Value) (base : Nat) (opcode : Opcode)
    (operand : UInt16) : Composed (operation constants base opcode operand) := by
  have constantSymbol : Composed
      (perform (Action.ofExcept (constantSymbol constants operand.toNat))) :=
    .steady (Action.steady_ofExcept _)
  cases opcode with
  | varRef => exact .bind constantSymbol fun _ => composed_answer (Action.steady_ask _)
  | varSet =>
      exact .bind constantSymbol fun symbol => .bind (.onStack _) fun value =>
        .bind (.steady (Action.steady_onEnv (Environment.bindings_setBound symbol value)))
          fun _ => .pure _
  | varBind =>
      exact .bind constantSymbol fun symbol => .bind (.onStack _) fun value =>
        .binding symbol value
  | unbind => exact .unbinding base _
  | constant | constant2 => exact composed_answer (Action.steady_ofExcept _)
  | call => exact .bind (.onStack _) fun _ => .bind (.onStack _) fun _ => .pure _
  | ret | discard => exact .bind (.onStack _) fun _ => .pure _
  | goto => exact .pure _
  | gotoIfNil | gotoIfNotNil => exact composed_jumpIf _ _
  | gotoIfNilElsePop | gotoIfNotNilElsePop => exact composed_jumpElsePop _ _
  | stackRef | dup => exact composed_copy _
  | discardN => exact composed_discard _
  | stackSet | stackSet2 => exact composed_store _
  | car | cdr | carSafe | cdrSafe | length | nreverse | symbolp | consp | stringp | listp
  | numberp | integerp | not | add1 | sub1 | negate | symbolValue | symbolFunction =>
      exact composed_unary fun _ => by simp
  | upcase | downcase =>
      exact composed_unary fun _ => Action.steady_onHeap (Sequences.keepsFunctions_changeCase _ _)
  | cons | nth | nthcdr | elt | memq | member | assq | nconc | setcar | setcdr | eq | equal
  | plus | diff | mult | quo | rem | max | min | numEq | greater | less | lessEq | greaterEq
  | aref | stringEq | stringLess | get | set | fset => exact composed_binary fun _ _ => by simp
  | aset | substring => exact composed_ternary fun _ _ _ => by simp
  | list1 | list2 | list3 | list4 | listN | concat2 | concat3 | concat4 | concatN =>
      exact composed_variadic (fun _ => by simp) _

end Execute

end ByteLisp
