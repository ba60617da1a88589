import ByteLisp.Proofs.Scoping
import Mathlib.Data.List.Basic

/-!
# Instructions and built-in functions

Most operations on values can be reached in two ways: by an instruction, which finds its
arguments on the operand stack, and by a call of a built-in function. `Opcode.builtIn?`
pairs the two. An instruction does what a call of its function does, with one exception:
the function `nconc` ends the last of its lists with `nil` before it joins them, and the
instruction does not. `Heap.joinsAlike` tells when that makes no difference.
-/

namespace ByteLisp

/-- The built-in function for the operation of an instruction, and the number of arguments
that the instruction takes. -/
def Opcode.builtIn? (opcode : Opcode) (operand : UInt16) : Option (Primitive × Nat) :=
  match opcode with
  | .car => some (.car, 1)
  | .cdr => some (.cdr, 1)
  | .carSafe => some (.carSafe, 1)
  | .cdrSafe => some (.cdrSafe, 1)
  | .cons => some (.cons, 2)
  | .list1 => some (.list, 1)
  | .list2 => some (.list, 2)
  | .list3 => some (.list, 3)
  | .list4 => some (.list, 4)
  | .listN => some (.list, operand.toNat)
  | .length => some (.length, 1)
  | .nth => some (.nth, 2)
  | .nthcdr => some (.nthcdr, 2)
  | .elt => some (.elt, 2)
  | .memq => some (.memq, 2)
  | .member => some (.member, 2)
  | .assq => some (.assq, 2)
  | .nreverse => some (.nreverse, 1)
  | .nconc => some (.nconc, 2)
  | .setcar => some (.setcar, 2)
  | .setcdr => some (.setcdr, 2)
  | .symbolp => some (.symbolp, 1)
  | .consp => some (.consp, 1)
  | .stringp => some (.stringp, 1)
  | .listp => some (.listp, 1)
  | .numberp => some (.numberp, 1)
  | .integerp => some (.integerp, 1)
  | .not => some (.not, 1)
  | .eq => some (.eq, 2)
  | .equal => some (.equal, 2)
  | .add1 => some (.add1, 1)
  | .sub1 => some (.sub1, 1)
  | .negate => some (.minus, 1)
  | .plus => some (.plus, 2)
  | .diff => some (.minus, 2)
  | .mult => some (.times, 2)
  | .quo => some (.divide, 2)
  | .rem => some (.remainder, 2)
  | .max => some (.max, 2)
  | .min => some (.min, 2)
  | .numEq => some (.numEq, 2)
  | .greater => some (.greater, 2)
  | .less => some (.less, 2)
  | .lessEq => some (.lessEq, 2)
  | .greaterEq => some (.greaterEq, 2)
  | .aref => some (.aref, 2)
  | .aset => some (.aset, 3)
  | .substring => some (.substring, 3)
  | .concat2 => some (.concat, 2)
  | .concat3 => some (.concat, 3)
  | .concat4 => some (.concat, 4)
  | .concatN => some (.concat, operand.toNat)
  | .upcase => some (.upcase, 1)
  | .downcase => some (.downcase, 1)
  | .stringEq => some (.stringEq, 2)
  | .stringLess => some (.stringLess, 2)
  | .symbolValue => some (.symbolValue, 1)
  | .symbolFunction => some (.symbolFunction, 1)
  | .set => some (.set, 2)
  | .fset => some (.fset, 2)
  | .get => some (.get, 2)
  | .stackRef | .varRef | .varSet | .varBind | .call | .unbind | .constant | .constant2 | .goto
  | .gotoIfNil | .gotoIfNotNil | .gotoIfNilElsePop | .gotoIfNotNilElsePop | .ret | .discard
  | .dup | .discardN | .stackSet | .stackSet2 => none

/-- Only one opcode stands for the joining of lists. -/
theorem Opcode.eq_nconc_of_builtIn {opcode : Opcode} {operand : UInt16} {count : Nat}
    (paired : opcode.builtIn? operand = some (.nconc, count)) : opcode = .nconc := by
  cases opcode with
  | nconc => rfl
  | _ => cases paired

namespace Execute

open ExecM

/-- Pushes the value of an action. -/
def pushValueOf (action : Action Value) : ExecM Flow := do
  push (← perform action)
  return .next

/-- With the arguments on top of the stack, the instruction does what a call of the
built-in function does with the stack below: it leaves the same value or fault, the same
memory and the same stack. -/
def AgreesWith (constants : Array Value) (base : Nat) (opcode : Opcode) (operand : UInt16)
    (primitive : Primitive) (arguments : List Value) (context : Context)
    (stack : OperandStack) : Prop :=
  operation constants base opcode operand
      ⟨context, { stack with slots := stack.slots ++ arguments.toArray }⟩ =
    pushValueOf (primitive.call arguments) ⟨context, stack⟩

/-! ## Arguments on the operand stack -/

variable {context : Context} {stack : OperandStack} {action : Action Value}

/-- A unary instruction takes its operand from the top of the operand stack. -/
theorem unary_of_top {operation : Value → Action Value} {x : Value} (same : operation x = action) :
    unary operation ⟨context, { stack with slots := stack.slots ++ [x].toArray }⟩ =
      pushValueOf action ⟨context, stack⟩ := by
  subst same
  have top : stack.slots ++ [x].toArray = stack.slots.push x := by simp
  rw [top]
  unfold unary
  rw [run_bind, pop_push]
  rfl

/-- A binary instruction takes its operands from the top, the first of them below. -/
theorem binary_of_top {operation : Value → Value → Action Value} {a b : Value}
    (same : operation a b = action) :
    binary operation ⟨context, { stack with slots := stack.slots ++ [a, b].toArray }⟩ =
      pushValueOf action ⟨context, stack⟩ := by
  subst same
  have top : stack.slots ++ [a, b].toArray = (stack.slots.push a).push b := by
    apply Array.ext'
    simp
  rw [top]
  unfold binary
  rw [run_bind, pop_push]
  dsimp only
  rw [run_bind, pop_push]
  rfl

/-- A ternary instruction takes its operands from the top, the first of them deepest. -/
theorem ternary_of_top {operation : Value → Value → Value → Action Value} {a b c : Value}
    (same : operation a b c = action) :
    ternary operation ⟨context, { stack with slots := stack.slots ++ [a, b, c].toArray }⟩ =
      pushValueOf action ⟨context, stack⟩ := by
  subst same
  have top : stack.slots ++ [a, b, c].toArray = ((stack.slots.push a).push b).push c := by
    apply Array.ext'
    simp
  rw [top]
  unfold ternary
  rw [run_bind, pop_push]
  dsimp only
  rw [run_bind, pop_push]
  dsimp only
  rw [run_bind, pop_push]
  rfl

/-- An instruction with a count takes that many operands from the top, in their order. -/
theorem variadic_of_top {count : Nat} {operation : List Value → Action Value}
    {arguments : List Value} (given : count = arguments.length)
    (same : operation arguments = action) :
    variadic count operation
        ⟨context, { stack with slots := stack.slots ++ arguments.toArray }⟩ =
      pushValueOf action ⟨context, stack⟩ := by
  subst given same
  unfold variadic
  have popped : onStack (OperandStack.popMany arguments.length)
      ⟨context, { stack with slots := stack.slots ++ arguments.toArray }⟩ =
        (.ok arguments, ⟨context, stack⟩) := by
    simp [onStack, OperandStack.popMany]
  rw [run_bind, popped]
  rfl

end Execute

/-! ## Sums and products -/

namespace Arithmetic

/-- A neutral integer in front of a number that is not a float makes no difference. -/
theorem apply_neutral {operation : ArithmeticOp} {onIntegers : Int → Int → Int}
    {onDoubles : Double → Double → Double} {seed : Int64}
    (neutral : ∀ n, onIntegers seed.toInt n = n) {a : Value} (b : Value)
    (noFloat : ∀ x, a ≠ .float x) :
    (apply operation onIntegers onDoubles (.int seed) a >>= fun sum =>
      apply operation onIntegers onDoubles sum b) = apply operation onIntegers onDoubles a b := by
  cases a with
  | int n =>
      have same : apply operation onIntegers onDoubles (.int seed) (.int n) = .ok (.int n) := by
        simp [apply, Value.expectNumber, checked, neutral, bind, Except.bind]
      rw [same]
      rfl
  | float x => exact absurd rfl (noFloat x)
  | _ => rfl

/-- A sum that starts from zero is the sum of its two numbers, when the first is no float. -/
theorem foldlM_plus {a : Value} (b : Value) (noFloat : ∀ x, a ≠ .float x) :
    [a, b].foldlM plus (.int 0) = plus a b := by
  simpa [plus] using apply_neutral (fun n => Int.zero_add n) b noFloat

/-- A product that starts from one is the product of its two numbers, when the first is no float. -/
theorem foldlM_mult {a : Value} (b : Value) (noFloat : ∀ x, a ≠ .float x) :
    [a, b].foldlM mult (.int 1) = mult a b := by
  simpa [mult] using apply_neutral (fun n => Int.one_mul n) b noFloat

end Arithmetic

namespace Execute

/-- All pairs but that of `nconc` agree on all arguments, floats at the head of a sum or
product apart. -/
theorem agreesWith_of_builtIn {constants : Array Value} {base : Nat} {opcode : Opcode}
    {operand : UInt16} {primitive : Primitive} {arguments : List Value} {context : Context}
    {stack : OperandStack} (paired : opcode.builtIn? operand = some (primitive, arguments.length))
    (noFloat : primitive = .plus ∨ primitive = .times → ∀ x, arguments.head? ≠ some (.float x))
    (other : primitive ≠ .nconc) :
    AgreesWith constants base opcode operand primitive arguments context stack := by
  generalize given : arguments.length = count at paired
  cases opcode with
  | nconc =>
      cases paired
      exact absurd rfl other
  | car | cdr | carSafe | cdrSafe | length | nreverse | symbolp | consp | stringp | listp
  | numberp | integerp | not | add1 | sub1 | negate | upcase | downcase | symbolValue
  | symbolFunction =>
      cases paired
      obtain ⟨x, rfl⟩ := List.length_eq_one_iff.mp given
      exact unary_of_top rfl
  | cons | nth | nthcdr | elt | memq | member | assq | setcar | setcdr | eq | equal | rem
  | numEq | greater | less | lessEq | greaterEq | aref | stringEq | stringLess | set | fset
  | get =>
      cases paired
      obtain ⟨a, b, rfl⟩ := List.length_eq_two.mp given
      exact binary_of_top rfl
  | diff =>
      cases paired
      obtain ⟨a, b, rfl⟩ := List.length_eq_two.mp given
      refine binary_of_top (congrArg Action.ofExcept ?_)
      simp [Primitive.difference]
  | quo | max | min =>
      cases paired
      obtain ⟨a, b, rfl⟩ := List.length_eq_two.mp given
      refine binary_of_top (congrArg Action.ofExcept ?_)
      simp
  | plus =>
      cases paired
      obtain ⟨a, b, rfl⟩ := List.length_eq_two.mp given
      refine binary_of_top (congrArg Action.ofExcept ?_)
      refine (Arithmetic.foldlM_plus b fun x float => ?_).symm
      exact noFloat (.inl rfl) x (congrArg some float)
  | mult =>
      cases paired
      obtain ⟨a, b, rfl⟩ := List.length_eq_two.mp given
      refine binary_of_top (congrArg Action.ofExcept ?_)
      refine (Arithmetic.foldlM_mult b fun x float => ?_).symm
      exact noFloat (.inr rfl) x (congrArg some float)
  | aset | substring =>
      cases paired
      obtain ⟨a, b, c, rfl⟩ := List.length_eq_three.mp given
      exact ternary_of_top rfl
  | list1 | list2 | list3 | list4 | listN | concat2 | concat3 | concat4 | concatN =>
      cases paired
      exact variadic_of_top given.symm rfl
  | _ => cases paired

/-- What comes of pushing the value of an action onto a stack with room for it. -/
theorem pushValueOf_of_room (action : Action Value) (context : Context) {stack : OperandStack}
    (room : stack.depth < stack.maxDepth) :
    pushValueOf action ⟨context, stack⟩ = match action context.memory with
      | (.ok value, memory) =>
        (.ok .next, ⟨{ context with memory },
          ⟨stack.slots.push value, stack.maxDepth, max stack.highWater (stack.depth + 1)⟩⟩)
      | (.error fault, memory) => (.error fault, ⟨{ context with memory }, stack⟩) := by
  unfold pushValueOf
  rw [run_bind]
  obtain ⟨memory, settings, statistics, trace, callDepth, traced⟩ := context
  rcases ran : action memory with ⟨fault | value, after⟩
  · simp only [ExecM.perform, Context.perform, ran]
  · simp only [OperandStack.depth] at room
    simp only [ExecM.perform, Context.perform, ran, run_bind, ExecM.push, ExecM.onStack,
      OperandStack.push, room, if_true]
    rfl

/-- The outcome shows what the action has come to. -/
theorem eq_of_pushValueOf_eq {action other : Action Value} {context : Context}
    {stack : OperandStack} (room : stack.depth < stack.maxDepth)
    (same : pushValueOf action ⟨context, stack⟩ = pushValueOf other ⟨context, stack⟩) :
    action context.memory = other context.memory := by
  rw [pushValueOf_of_room action context room, pushValueOf_of_room other context room] at same
  generalize action context.memory = outcome at same ⊢
  generalize other context.memory = otherOutcome at same ⊢
  obtain ⟨fault | value, after⟩ := outcome <;>
    obtain ⟨otherFault | otherValue, otherAfter⟩ := otherOutcome
  · cases same
    rfl
  · cases same
  · cases same
  · obtain rfl : after = otherAfter := congrArg (·.2.context.memory) same
    have pushed : stack.slots.push value = stack.slots.push otherValue :=
      congrArg (·.2.stack.slots) same
    rw [(Array.push_eq_push.mp pushed).1]

end Execute

/-! ## Joining lists -/

/-- How a value ends that is given as a list. -/
inductive ListEnd where
  /-- It is `nil`. -/
  | empty
  /-- It is a chain of conses of which this is the last. -/
  | last (cell : Address)
  /-- It is a circular chain. -/
  | circular
  /-- It is not a list. -/
  | atom
deriving DecidableEq, Repr

namespace Heap

/-- How a value ends that is given as a list. -/
def listEnd (heap : Heap) (value : Value) : ListEnd :=
  match value with
  | .cons cell =>
    match heap.last? cell with
    | some last => .last last
    | none => .circular
  | _ => if value.isNil then .empty else .atom

/-- Whether it makes no difference to the joining of two lists that the second one is ended
with `nil` before. That is so when it ends in `nil` already, or when it ends in the same
cons as the first. Otherwise both ways must fail for the same reason. -/
def joinsAlike (heap : Heap) (first second : Value) : Bool :=
  match heap.listEnd second with
  | .empty => second = .nil ∨ heap.listEnd first = .circular ∨ heap.listEnd first = .atom
  | .last cell =>
    cell < heap.pairs.size ∧ ((heap.pair cell).cdr = .nil ∨ heap.listEnd first = .last cell)
  | .circular | .atom => first = second

variable {heap : Heap} {first second value : Value} {cell : Address}

/-- The last cons of a list has no further cons behind it. -/
theorem isCons_cdr_of_listEnd (ended : heap.listEnd value = .last cell) :
    (heap.pair cell).cdr.isCons = false := by
  unfold listEnd at ended
  split at ended
  · split at ended
    · rename_i found
      cases ended
      exact isCons_cdr_of_lastFrom? found
    · cases ended
  · split at ended <;> cases ended

/-- Ending one list with `nil` moves the end of no list. -/
theorem listEnd_setCdr (inside : cell < heap.pairs.size)
    (ends : (heap.pair cell).cdr.isCons = false) :
    (heap.setCdr cell .nil).listEnd value = heap.listEnd value := by
  have bound : (heap.setCdr cell .nil).chainBound = heap.chainBound := by
    obtain ⟨pairs, vectors, strings, functions⟩ := heap
    exact congrArg (· + 1) (Store.size_write_of_lt _ inside)
  unfold listEnd last? watchBound
  rw [bound]
  simp only [lastFrom?_setCdr ends]

end Heap

/-- What joining comes to depends on how the first list ends. -/
theorem Lists.nconc_eq (first second : Value) (heap : Heap) :
    nconc first second heap = match heap.listEnd first with
      | .empty => (.ok second, heap)
      | .last cell => (.ok first, heap.setCdr cell second)
      | .circular => (.error (.wrongType .listp first), heap)
      | .atom => (.error (.wrongType .consp first), heap) := by
  cases first with
  | cons cell =>
      have got : (get : HeapM Heap) heap = (.ok heap, heap) := rfl
      simp only [nconc, Heap.listEnd, run_bind, got]
      cases heap.last? cell <;> rfl
  | symbol name =>
      simp only [nconc, Heap.listEnd]
      split <;> rfl
  | _ => rfl

/-- A fault in joining lists names the first of them. -/
theorem Lists.eq_of_nconc_eq_error {first second value : Value} {heap after : Heap}
    {expected : Expectation}
    (failed : nconc first second heap = (.error (.wrongType expected value), after)) :
    value = first := by
  rw [nconc_eq] at failed
  split at failed <;> cases failed <;> rfl

/-- The function `nconc` ends the second list with `nil` and then joins the two. -/
theorem Primitive.nconcAll_pair (first second : Value) (heap : Heap) :
    nconcAll [first, second] heap = match heap.listEnd second with
      | .empty => Lists.nconc first .nil heap
      | .last cell => Lists.nconc first second (heap.setCdr cell .nil)
      | .circular => (.error (.wrongType .listp second), heap)
      | .atom => (.error (.wrongType .consp second), heap) := by
  have inTurn : nconcAll [first, second] =
      (do let joined ← Lists.nconc second .nil; Lists.nconc first joined) := by
    simp [nconcAll]
  rw [inTurn, run_bind, Lists.nconc_eq second]
  cases heap.listEnd second <;> rfl

namespace Heap

variable {heap : Heap} {first second : Value}

/-- Where the condition holds, the built-in function joins as the instruction does. -/
theorem nconcAll_eq_of_joinsAlike (alike : heap.joinsAlike first second = true) :
    Primitive.nconcAll [first, second] heap = Lists.nconc first second heap := by
  rw [Primitive.nconcAll_pair]
  unfold joinsAlike at alike
  cases ended : heap.listEnd second with
  | empty =>
      simp only [ended, decide_eq_true_eq] at alike
      obtain rfl | fails | fails := alike
      · rfl
      · simp only [Lists.nconc_eq, fails]
      · simp only [Lists.nconc_eq, fails]
  | last cell =>
      simp only [ended, decide_eq_true_eq] at alike
      obtain ⟨inside, proper | shared⟩ := alike
      · simp only [setCdr_self inside proper]
      · have ends := isCons_cdr_of_listEnd ended
        simp only [Lists.nconc_eq first, listEnd_setCdr inside ends, shared,
          setCdr_setCdr _ _ inside]
  | circular | atom =>
      simp only [ended, decide_eq_true_eq] at alike
      subst alike
      simp only [Lists.nconc_eq, ended]

/-- Where both join alike, the condition holds. -/
theorem joinsAlike_of_nconcAll_eq
    (within : ∀ cell, heap.listEnd second = .last cell → cell < heap.pairs.size)
    (same : Primitive.nconcAll [first, second] heap = Lists.nconc first second heap) :
    heap.joinsAlike first second = true := by
  rw [Primitive.nconcAll_pair] at same
  unfold joinsAlike
  cases ended : heap.listEnd second with
  | empty =>
      simp only [ended, Lists.nconc_eq first] at same
      simp only [decide_eq_true_eq]
      cases start : heap.listEnd first with
      | empty =>
          simp only [start] at same
          cases same
          exact .inl rfl
      | last cell =>
          simp only [start] at same
          have fields := congrArg (fun outcome => (outcome.2.pair cell).cdr) same
          simp only [pair_setCdr, if_true] at fields
          exact .inl fields.symm
      | circular => exact .inr (.inl rfl)
      | atom => exact .inr (.inr rfl)
  | last cell =>
      have inside := within cell ended
      have ends := isCons_cdr_of_listEnd ended
      simp only [ended, Lists.nconc_eq first, listEnd_setCdr inside ends] at same
      simp only [decide_eq_true_eq]
      refine ⟨inside, ?_⟩
      -- Whatever the first list is, its end shows whether the second one was cut.
      have fields := congrArg (fun outcome => (outcome.2.pair cell).cdr) same
      cases start : heap.listEnd first with
      | empty | circular | atom =>
          simp only [start, pair_setCdr, if_true] at fields
          exact .inl fields.symm
      | last other =>
          by_cases shared : other = cell
          · exact .inr (by rw [shared])
          · simp only [start, pair_setCdr, if_true, if_neg (Ne.symm shared)] at fields
            exact .inl fields.symm
  | circular | atom =>
      simp only [ended] at same
      simp only [decide_eq_true_eq]
      exact (Lists.eq_of_nconc_eq_error same.symm).symm

end Heap

namespace Execute

variable {constants : Array Value} {base : Nat} {operand : UInt16} {context : Context}
  {stack : OperandStack} {first second : Value}

/-- Instruction and built-in function agree when the two ways of joining agree on this heap. -/
theorem agreesWith_nconc_iff :
    AgreesWith constants base .nconc operand .nconc [first, second] context stack ↔
      pushValueOf (Action.onHeap (Lists.nconc first second)) ⟨context, stack⟩ =
        pushValueOf (Action.onHeap (Primitive.nconcAll [first, second])) ⟨context, stack⟩ := by
  have executed : operation constants base .nconc operand
      ⟨context, { stack with slots := stack.slots ++ [first, second].toArray }⟩ =
        pushValueOf (Action.onHeap (Lists.nconc first second)) ⟨context, stack⟩ :=
    binary_of_top rfl
  unfold AgreesWith
  rw [executed]
  rfl

/-- The condition suffices for agreement. -/
theorem agreesWith_nconc_of_joinsAlike
    (alike : context.memory.heap.joinsAlike first second = true) :
    AgreesWith constants base .nconc operand .nconc [first, second] context stack := by
  refine agreesWith_nconc_iff.mpr ?_
  have same : Action.onHeap (Lists.nconc first second) context.memory =
      Action.onHeap (Primitive.nconcAll [first, second]) context.memory := by
    simp only [Action.onHeap, Heap.nconcAll_eq_of_joinsAlike alike]
  unfold pushValueOf
  simp only [run_bind, ExecM.perform, Context.perform, same]

/-- The condition is necessary where there is room for the result. -/
theorem joinsAlike_of_agreesWith_nconc (room : stack.depth < stack.maxDepth)
    (within : ∀ cell, context.memory.heap.listEnd second = .last cell →
      cell < context.memory.heap.pairs.size)
    (agrees : AgreesWith constants base .nconc operand .nconc [first, second] context stack) :
    context.memory.heap.joinsAlike first second = true := by
  have same := eq_of_pushValueOf_eq room (agreesWith_nconc_iff.mp agrees)
  refine Heap.joinsAlike_of_nconcAll_eq within (Prod.ext ?_ ?_)
  · exact (congrArg Prod.fst same).symm
  · exact (congrArg (fun outcome => outcome.2.heap) same).symm

/-- An instruction does what a call of its built-in function does with the same arguments,
where a sum or product of the function does not start with a float. For `nconc` that holds
when the second list can be ended with `nil` without a difference, and with room for the
result and the conses of that list in the heap only then. -/
theorem instruction_agrees_with_builtIn (constants : Array Value) (base : Nat) (opcode : Opcode)
    (operand : UInt16) (primitive : Primitive) (arguments : List Value) (context : Context)
    (stack : OperandStack)
    (paired : opcode.builtIn? operand = some (primitive, arguments.length))
    (noFloat : primitive = .plus ∨ primitive = .times → ∀ x, arguments.head? ≠ some (.float x)) :
    (primitive ≠ .nconc →
      AgreesWith constants base opcode operand primitive arguments context stack) ∧
    ∀ first second, primitive = .nconc → arguments = [first, second] →
      (context.memory.heap.joinsAlike first second = true →
        AgreesWith constants base opcode operand primitive arguments context stack) ∧
      (stack.depth < stack.maxDepth →
        (∀ cell, context.memory.heap.listEnd second = .last cell →
          cell < context.memory.heap.pairs.size) →
        AgreesWith constants base opcode operand primitive arguments context stack →
        context.memory.heap.joinsAlike first second = true) := by
  refine ⟨agreesWith_of_builtIn paired noFloat, ?_⟩
  rintro first second rfl rfl
  have isNconc := Opcode.eq_nconc_of_builtIn paired
  subst isNconc
  exact ⟨agreesWith_nconc_of_joinsAlike, joinsAlike_of_agreesWith_nconc⟩

/-- The list `(1 2 . 3)` and its rest. -/
def dottedList : Context where
  memory.heap.pairs := ⟨#[⟨.int 1, .cons 1⟩, ⟨.int 2, .int 3⟩]⟩

/-- A list is joined to its own rest in the same way, though it does not end in `nil`. -/
theorem nconc_agrees_on_own_rest :
    AgreesWith #[] 0 .nconc 0 .nconc [.cons 0, .cons 1] dottedList ⟨#[], 2, 2⟩ :=
  ((instruction_agrees_with_builtIn #[] 0 .nconc 0 .nconc [.cons 0, .cons 1] dottedList
    ⟨#[], 2, 2⟩ rfl (by simp)).2 (.cons 0) (.cons 1) rfl rfl).1 (by decide)

/-- The lists `(1)` and `(2 . 3)`. -/
def twoLists : Context where
  memory.heap.pairs := ⟨#[⟨.int 1, .nil⟩, ⟨.int 2, .int 3⟩]⟩

/-- The instruction leaves the end of a second list that does not end in `nil`, and the
function cuts it off. -/
theorem nconc_disagrees_on_dotted_list :
    ¬ AgreesWith #[] 0 .nconc 0 .nconc [.cons 0, .cons 1] twoLists ⟨#[], 2, 2⟩ := by
  intro agrees
  have ends := congrArg (fun outcome => (outcome.2.context.memory.heap.pair 1).cdr) agrees
  revert ends
  decide

end Execute

end ByteLisp
