import ByteLisp.Code.Listing
import ByteLisp.Proofs.MachineInvariant

/-!
# Well-formed code

A listing walks code from its start, while an activation jumps about in it. Code is well
formed when the walk comes to the end of it and every jump that is listed goes to a listed
instruction. An activation of well-formed code then never leaves the places that the walk
has visited, and always finds an instruction there, whatever the code of the functions that
it calls and is called by.
-/

namespace ByteLisp

open Machine

namespace Listing

/-- The offsets of the instructions. -/
def offsets (listing : Listing) : List Nat :=
  listing.lines.map Prod.fst

/-- A listing that comes to the end of the code starts with an instruction or there. -/
theorem start_mem_offsets {code : Bytes} {start : Nat} (inside : start ≤ code.size)
    (complete : (startingAt code start).stoppedBy = none) :
    start ∈ (startingAt code start).offsets ∨ start = code.size := by
  rw [startingAt] at complete ⊢
  split at complete
  · rename_i before
    rw [if_pos before]
    split at complete
    · cases complete
    · exact .inl (by simp [offsets])
  · omega

/-- What is listed is what decodes there, and a complete listing goes on behind it. -/
theorem decode_of_mem_lines {code : Bytes} {start offset : Nat} {instruction : Instruction}
    (listed : (offset, instruction) ∈ (startingAt code start).lines) :
    ∃ next, Instruction.decode code offset = .ok (instruction, next) ∧
      ((startingAt code start).stoppedBy = none →
        next ∈ (startingAt code start).offsets ∨ next = code.size) := by
  -- The induction is along the walk.
  fun_induction startingAt code start with
  | case1 | case3 => cases listed
  | case2 start _ first next decoded rest ih =>
      obtain same | later := List.mem_cons.mp listed
      · cases same
        refine ⟨next, decoded, fun complete => ?_⟩
        have inside := Instruction.le_size_of_decode_eq_ok decoded
        exact (start_mem_offsets inside complete).imp_left (List.mem_cons_of_mem _)
      · obtain ⟨behind, decodedThere, onward⟩ := ih later
        exact ⟨behind, decodedThere, fun complete =>
          (onward complete).imp_left (List.mem_cons_of_mem _)⟩

/-- Every listed instruction starts inside the code. -/
theorem lt_size_of_mem_offsets {code : Bytes} {start offset : Nat}
    (listed : offset ∈ (startingAt code start).offsets) : offset < code.size := by
  obtain ⟨⟨_, instruction⟩, line, rfl⟩ := List.mem_map.mp listed
  obtain ⟨next, decoded, _⟩ := decode_of_mem_lines line
  exact Instruction.lt_size_of_decode_eq_ok decoded

end Listing

namespace Bytes

/-- The listing of the code comes to its end, and the jumps in it go to instructions in
it. -/
structure WellFormed (code : Bytes) : Prop where
  complete : (Listing.ofCode code).stoppedBy = none
  jumps : ∀ line ∈ (Listing.ofCode code).lines, line.2.opcode.isJump = true →
    line.2.operand.toNat ∈ (Listing.ofCode code).offsets

instance (code : Bytes) : Decidable code.WellFormed :=
  decidable_of_iff ((Listing.ofCode code).stoppedBy = none ∧
      ∀ line ∈ (Listing.ofCode code).lines, line.2.opcode.isJump = true →
        line.2.operand.toNat ∈ (Listing.ofCode code).offsets)
    ⟨fun ⟨complete, jumps⟩ => ⟨complete, jumps⟩, fun formed => ⟨formed.complete, formed.jumps⟩⟩

/-- The offset is that of a listed instruction, or the end of the code. -/
def Boundary (code : Bytes) (offset : Nat) : Prop :=
  offset ∈ (Listing.ofCode code).offsets ∨ offset = code.size

namespace WellFormed

variable {code : Bytes}

/-- Well-formed code can be started at its beginning. -/
theorem boundary_zero (formed : code.WellFormed) : code.Boundary 0 :=
  Listing.start_mem_offsets (Nat.zero_le _) formed.complete

/-- An instruction is listed at every boundary before the end, and ends at a boundary. -/
theorem decode_of_boundary {offset : Nat} (formed : code.WellFormed)
    (boundary : code.Boundary offset) (inside : offset < code.size) :
    ∃ instruction next, Instruction.decode code offset = .ok (instruction, next) ∧
      (offset, instruction) ∈ (Listing.ofCode code).lines ∧ code.Boundary next := by
  obtain listed | atEnd := boundary
  · obtain ⟨⟨_, instruction⟩, line, rfl⟩ := List.mem_map.mp listed
    obtain ⟨next, decoded, onward⟩ := Listing.decode_of_mem_lines line
    exact ⟨instruction, next, decoded, line, onward formed.complete⟩
  · omega

/-- What decodes at a boundary is listed there. -/
theorem line_of_decode {offset next : Nat} {instruction : Instruction} (formed : code.WellFormed)
    (boundary : code.Boundary offset)
    (decoded : Instruction.decode code offset = .ok (instruction, next)) :
    (offset, instruction) ∈ (Listing.ofCode code).lines ∧ code.Boundary next := by
  have inside := Instruction.lt_size_of_decode_eq_ok decoded
  obtain ⟨_, _, decodedHere, line, onward⟩ := formed.decode_of_boundary boundary inside
  rw [decoded] at decodedHere
  cases decodedHere
  exact ⟨line, onward⟩

end WellFormed

end Bytes

/-! ## Instructions -/

/-- Whether the fault is that an activation finds no instruction: at the place where it
goes on, or where it jumps to. -/
def Fault.ofCode : Fault → Bool
  | .code (.invalidOpcode ..) | .code (.unexpectedEnd _) | .invalidJump .. => true
  | _ => false

/-- Whether the fault is one of an instruction that is found and executed: neither is there no
instruction, nor does the machine stop. -/
def Fault.ofExecution (fault : Fault) : Bool :=
  !fault.ofCode && !fault.isFatal

/-- A fault of the data arises in execution. -/
theorem Fault.ofExecution_of_ofData {fault : Fault} (ofData : fault.ofData = true) :
    fault.ofExecution = true := by
  fun_cases Fault.ofData fault <;> simp_all [Fault.ofExecution, Fault.ofCode, isFatal, Fault.ofData]

/-- Faults of execution are not faults of the code. -/
theorem Fault.ofCode_of_ofExecution {fault : Fault} (ofExecution : fault.ofExecution = true) :
    fault.ofCode = false := by
  simp only [Fault.ofExecution, Bool.and_eq_true, Bool.not_eq_true'] at ofExecution
  exact ofExecution.1

/-- Faults of execution do not stop the machine. -/
theorem Fault.isFatal_of_ofExecution {fault : Fault} (ofExecution : fault.ofExecution = true) :
    fault.isFatal = false := by
  simp only [Fault.ofExecution, Bool.and_eq_true, Bool.not_eq_true'] at ofExecution
  exact ofExecution.2

/-- An operand stack refuses a value for want of room only. -/
theorem OperandStack.ofExecution_of_push {value : Value} {stack : OperandStack} {fault : Fault}
    (failed : (push value stack).1 = .error fault) : fault.ofExecution = true := by
  simp only [push] at failed
  split at failed <;> cases failed
  rfl

namespace ExecM

variable {α β : Type}

/-- A program that gives values of the given kind only, and fails with faults of execution
only. -/
structure Answers (program : ExecM α) (gives : α → Prop) : Prop where
  value : ∀ {running value after}, program running = (.ok value, after) → gives value
  fault : ∀ {running fault after}, program running = (.error fault, after) →
    fault.ofExecution = true

variable {gives : β → Prop}

/-- A program that does nothing answers with its value. -/
theorem answers_pure {value : β} (given : gives value) : Answers (pure value) gives where
  value returned := by
    cases returned
    exact given
  fault failed := by cases failed

/-- The last program in a row gives the answer; a fault may come from each of them. -/
theorem answers_bind {kind : α → Prop} {program : ExecM α} {rest : α → ExecM β}
    (first : Answers program kind) (next : ∀ value, Answers (rest value) gives) :
    Answers (program >>= rest) gives where
  value {running _ _} returned := by
    rw [run_bind] at returned
    rcases ran : program running with ⟨fault | value, middle⟩
    · rw [ran] at returned
      cases returned
    · rw [ran] at returned
      exact (next value).value returned
  fault {running _ _} failed := by
    rw [run_bind] at failed
    rcases ran : program running with ⟨fault | value, middle⟩
    · rw [ran] at failed
      cases failed
      exact first.fault ran
    · rw [ran] at failed
      exact (next value).fault failed

/-- An operation on the operand stack has no say in how the instruction goes on. -/
theorem answers_onStack {operation : StackM α}
    (spares : ∀ stack fault, (operation stack).1 = .error fault → fault.ofExecution = true) :
    Answers (onStack operation) (fun _ => True) where
  value _ := trivial
  fault {running _ _} failed := spares running.stack _ (congrArg Prod.fst failed)

/-- Neither has an action on the memory. -/
theorem answers_perform {action : Action α}
    (spares : ∀ memory fault, (action memory).1 = .error fault → fault.ofExecution = true) :
    Answers (perform action) (fun _ => True) where
  value _ := trivial
  fault {running _ _} failed := spares running.context.memory _ (congrArg Prod.fst failed)

/-- An action that raises faults of data alone raises faults of execution alone. -/
theorem answers_performData {action : Action α} (raises : RaisesData action) :
    Answers (perform action) (fun _ => True) :=
  answers_perform fun memory fault failed =>
    Fault.ofExecution_of_ofData (raises memory fault failed)

/-- Counting raises no fault. -/
theorem answers_count (update : Statistics → Statistics) :
    Answers (count update) (fun _ => True) where
  value _ := trivial
  fault failed := by cases failed

/-- Pushing can only overflow the operand stack. -/
theorem answers_push (value : Value) : Answers (push value) (fun _ => True) :=
  answers_onStack fun _ _ failed => OperandStack.ofExecution_of_push failed

/-- Popping can only find the operand stack empty. -/
theorem answers_pop : Answers pop (fun _ => True) := by
  refine answers_onStack fun stack fault failed => ?_
  simp only [OperandStack.pop] at failed
  split at failed <;> cases failed
  rfl

/-- Popping several values can only find too few of them. -/
theorem answers_popMany (count : Nat) :
    Answers (onStack (OperandStack.popMany count)) (fun _ => True) := by
  refine answers_onStack fun stack fault failed => ?_
  simp only [OperandStack.popMany] at failed
  split at failed <;> cases failed
  rfl

/-- Dropping several values can only find too few of them. -/
theorem answers_dropMany (count : Nat) :
    Answers (onStack (OperandStack.dropMany count)) (fun _ => True) := by
  refine answers_onStack fun stack fault failed => ?_
  simp only [OperandStack.dropMany] at failed
  split at failed <;> cases failed
  rfl

/-- Looking at a slot can only miss it. -/
theorem answers_peek (slot : Nat) :
    Answers (onStack (OperandStack.peek slot)) (fun _ => True) := by
  refine answers_onStack fun stack fault failed => ?_
  simp only [OperandStack.peek] at failed
  split at failed <;> cases failed
  rfl

/-- Setting a slot can only miss it. -/
theorem answers_set (slot : Nat) (value : Value) :
    Answers (onStack (OperandStack.set slot value)) (fun _ => True) := by
  refine answers_onStack fun stack fault failed => ?_
  simp only [OperandStack.set] at failed
  split at failed <;> cases failed
  rfl

end ExecM

/-- The operation may make its activation go on in this way: only a jump goes to another
place, and that place is its operand. -/
def Opcode.Goes (opcode : Opcode) (operand : UInt16) : Flow → Prop
  | .jump target => opcode.isJump = true ∧ target = operand.toNat
  | _ => True

namespace Execute

open ExecM

variable {gives : Flow → Prop}

/-- A unary instruction falls through. -/
theorem answers_unary {operation : Value → Action Value}
    (raises : ∀ x, RaisesData (operation x)) (falls : gives .next) :
    Answers (unary operation) gives := by
  refine answers_bind answers_pop fun x => ?_
  refine answers_bind (answers_performData (raises x)) fun result => ?_
  exact answers_bind (answers_push result) fun _ => answers_pure falls

/-- A binary instruction falls through. -/
theorem answers_binary {operation : Value → Value → Action Value}
    (raises : ∀ a b, RaisesData (operation a b)) (falls : gives .next) :
    Answers (binary operation) gives := by
  refine answers_bind answers_pop fun b => ?_
  refine answers_bind answers_pop fun a => ?_
  refine answers_bind (answers_performData (raises a b)) fun result => ?_
  exact answers_bind (answers_push result) fun _ => answers_pure falls

/-- A ternary instruction falls through. -/
theorem answers_ternary {operation : Value → Value → Value → Action Value}
    (raises : ∀ a b c, RaisesData (operation a b c)) (falls : gives .next) :
    Answers (ternary operation) gives := by
  refine answers_bind answers_pop fun c => ?_
  refine answers_bind answers_pop fun b => ?_
  refine answers_bind answers_pop fun a => ?_
  refine answers_bind (answers_performData (raises a b c)) fun result => ?_
  exact answers_bind (answers_push result) fun _ => answers_pure falls

/-- An instruction with a counted number of operands falls through. -/
theorem answers_variadic {count : Nat} {operation : List Value → Action Value}
    (raises : ∀ items, RaisesData (operation items)) (falls : gives .next) :
    Answers (variadic count operation) gives := by
  refine answers_bind (answers_popMany count) fun items => ?_
  refine answers_bind (answers_performData (raises items)) fun result => ?_
  exact answers_bind (answers_push result) fun _ => answers_pure falls

/-- A conditional jump falls through or goes to its target. -/
theorem answers_jumpIf {wanted : Value → Bool} {target : Nat} (falls : gives .next)
    (taken : gives (.jump target)) : Answers (jumpIf wanted target) gives := by
  refine answers_bind answers_pop fun value => ?_
  split
  · exact answers_pure taken
  · exact answers_pure falls

/-- So does one that keeps the value when it jumps. -/
theorem answers_jumpElsePop {wanted : Value → Bool} {target : Nat} (falls : gives .next)
    (taken : gives (.jump target)) : Answers (jumpElsePop wanted target) gives := by
  refine answers_bind (answers_peek 0) fun value => ?_
  split
  · exact answers_pure taken
  · exact answers_bind answers_pop fun _ => answers_pure falls

/-- Copying a slot falls through. -/
theorem answers_copy {slot : Nat} (falls : gives .next) : Answers (copy slot) gives := by
  refine answers_bind (answers_peek slot) fun value => ?_
  exact answers_bind (answers_push value) fun _ => answers_pure falls

/-- Discarding values falls through. -/
theorem answers_discard {operand : Nat} (falls : gives .next) :
    Answers (discard operand) gives := by
  have dropped : Answers (onStack (OperandStack.dropMany (operand % 128)) >>= fun _ =>
      pure Flow.next) gives :=
    answers_bind (answers_dropMany _) fun _ => answers_pure falls
  unfold discard
  dsimp only
  split
  · refine answers_bind (answers_peek 0) fun top => ?_
    exact answers_bind (answers_set _ top) fun _ => dropped
  · exact dropped

/-- Storing into a slot falls through. -/
theorem answers_store {slot : Nat} (falls : gives .next) : Answers (store slot) gives := by
  refine answers_bind answers_pop fun value => ?_
  dsimp only
  split
  · exact answers_bind (answers_set _ value) fun _ => answers_pure falls
  · exact answers_pure falls

/-- Binding a symbol falls through, or refuses a constant. -/
theorem answers_bindSymbol {symbol : Symbol} (falls : gives .next) :
    Answers (Execute.bind symbol) gives := by
  refine answers_bind answers_pop fun value => ?_
  refine answers_bind (answers_performData (Action.raisesData_onEnv
    (Environment.raisesData_bind symbol value))) fun _ => ?_
  exact answers_bind (answers_count _) fun _ => answers_pure falls

/-- Undoing bindings falls through, or finds too few of its own activation. -/
theorem answers_unbind {base requested : Nat} (falls : gives .next) :
    Answers (unbind base requested) gives := by
  refine answers_bind (answers_perform fun memory fault failed => ?_) fun _ =>
    answers_bind (answers_count _) fun _ => answers_pure falls
  simp only [run_bind, Action.ask] at failed
  split at failed
  · cases failed
    rfl
  · unfold Action.onEnv Environment.unbind at failed
    by_cases enough : requested ≤ memory.env.bindingDepth
    · simp [enough] at failed
    · simp only [enough, if_false] at failed
      cases failed
      rfl

/-- A missing constant is found missing in execution. -/
theorem ofExecution_of_constant_eq_error {constants : Array Value} {index : Nat} {fault : Fault}
    (failed : constant constants index = .error fault) : fault.ofExecution = true := by
  unfold constant at failed
  split at failed <;> cases failed
  rfl

/-- Reading a constant has no say in how the instruction goes on. -/
theorem answers_constant {constants : Array Value} {index : Nat} :
    Answers (perform (Action.ofExcept (constant constants index))) (fun _ => True) :=
  answers_perform fun _ _ failed => ofExecution_of_constant_eq_error failed

/-- Neither has reading a constant that must be a symbol. -/
theorem answers_constantSymbol {constants : Array Value} {index : Nat} :
    Answers (perform (Action.ofExcept (constantSymbol constants index))) (fun _ => True) := by
  refine answers_perform fun _ fault failed => ?_
  simp only [Action.ofExcept, constantSymbol] at failed
  cases found : constant constants index with
  | error missing =>
      rw [found] at failed
      cases failed
      exact ofExecution_of_constant_eq_error found
  | ok value =>
      rw [found] at failed
      exact Fault.ofExecution_of_ofData (value.blamesData_expectSymbol fault failed)

/-- An instruction fails with faults of execution only, and only the jumps jump. -/
theorem answers_operation (constants : Array Value) (base : Nat) (opcode : Opcode)
    (operand : UInt16) :
    Answers (operation constants base opcode operand) (opcode.Goes operand) := by
  cases opcode with
  | stackRef | dup => exact answers_copy trivial
  | varRef =>
      refine answers_bind answers_constantSymbol fun symbol => ?_
      refine answers_bind (answers_performData (Action.raisesData_ask fun env =>
        env.blamesData_symbolValue symbol)) fun value => ?_
      exact answers_bind (answers_push value) fun _ => answers_pure trivial
  | varSet =>
      refine answers_bind answers_constantSymbol fun symbol => ?_
      refine answers_bind answers_pop fun value => ?_
      refine answers_bind (answers_performData (Action.raisesData_onEnv
        (Environment.raisesData_setBound symbol value))) fun _ => ?_
      exact answers_pure trivial
  | varBind =>
      exact answers_bind answers_constantSymbol fun symbol => answers_bindSymbol trivial
  | call =>
      refine answers_bind (answers_popMany operand.toNat) fun arguments => ?_
      exact answers_bind answers_pop fun callee => answers_pure trivial
  | unbind => exact answers_unbind trivial
  | constant | constant2 =>
      refine answers_bind answers_constant fun value => ?_
      exact answers_bind (answers_push value) fun _ => answers_pure trivial
  | goto => exact answers_pure ⟨rfl, rfl⟩
  | gotoIfNil | gotoIfNotNil => exact answers_jumpIf trivial ⟨rfl, rfl⟩
  | gotoIfNilElsePop | gotoIfNotNilElsePop => exact answers_jumpElsePop trivial ⟨rfl, rfl⟩
  | ret | discard => exact answers_bind answers_pop fun value => answers_pure trivial
  | discardN => exact answers_discard trivial
  | stackSet | stackSet2 => exact answers_store trivial
  | car | cdr | carSafe | cdrSafe | length | symbolp | consp | stringp | listp | numberp
  | integerp | not | negate | nreverse | symbolValue | symbolFunction =>
      exact answers_unary (fun _ => by simp) trivial
  | add1 | sub1 =>
      exact answers_unary (fun _ => by
        simp [Arithmetic.add1, Arithmetic.sub1, Arithmetic.plus, Arithmetic.diff]) trivial
  | upcase | downcase =>
      exact answers_unary (fun _ => by simp [Sequences.upcase, Sequences.downcase]) trivial
  | nth | nthcdr | elt | memq | member | assq | aref | stringEq | stringLess | equal | quo | rem
  | cons | nconc | setcar | setcdr | eq | set | fset | get =>
      exact answers_binary (fun _ _ => by simp) trivial
  | plus | diff | mult =>
      exact answers_binary (fun _ _ => by
        simp [Arithmetic.plus, Arithmetic.diff, Arithmetic.mult]) trivial
  | max | min =>
      exact answers_binary (fun _ _ => by simp [Arithmetic.max, Arithmetic.min]) trivial
  | numEq | greater | less | lessEq | greaterEq =>
      exact answers_binary (fun _ _ => by
        simp [Arithmetic.numEq, Arithmetic.greater, Arithmetic.less, Arithmetic.lessEq,
          Arithmetic.greaterEq]) trivial
  | aset | substring => exact answers_ternary (fun _ _ _ => by simp) trivial
  | list1 | list2 | list3 | list4 | listN | concat2 | concat3 | concat4 | concatN =>
      exact answers_variadic (fun _ => by simp) trivial

end Execute

namespace Activation

variable {activation moved resumed : Activation} {context after : Context}

/-- In well-formed code the activation stands at a listed instruction or at the end. -/
def Placed (activation : Activation) : Prop :=
  activation.function.code.WellFormed → activation.function.code.Boundary activation.pc

/-- An activation that goes on after an instruction is where the code has one, or at the
end: behind the instruction, or where a listed jump leads. -/
theorem placed_step {flow : Flow} (placed : activation.Placed)
    (ran : activation.step context = (.ok flow, after, moved)) : moved.Placed := by
  cases stepped ran with
  | @executed instruction next _ left decoded executed inside =>
      intro formed
      obtain ⟨line, onward⟩ := formed.line_of_decode (placed formed) decoded
      have goes := (Execute.answers_operation _ _ _ _).value executed
      cases flow with
      | next | call | leave => exact onward
      | jump target =>
          obtain ⟨jumps, rfl⟩ := goes
          exact .inl (formed.jumps _ line jumps)

/-- In well-formed code no step fails for want of an instruction. -/
theorem ofCode_of_step {failure : Failure} (placed : activation.Placed)
    (formed : activation.function.code.WellFormed)
    (ran : activation.step context = (.error failure, after, moved)) :
    failure.cause.ofCode = false := by
  cases stepped ran with
  | ended => rfl
  | undecodable inside undecoded =>
      obtain ⟨_, _, decoded, _⟩ := formed.decode_of_boundary (placed formed) inside
      rw [decoded] at undecoded
      cases undecoded
  | failed decoded executed =>
      exact Fault.ofCode_of_ofExecution ((Execute.answers_operation _ _ _ _).fault executed)
  | astray decoded executed outside =>
      obtain ⟨line, _⟩ := formed.line_of_decode (placed formed) decoded
      obtain ⟨jumps, rfl⟩ := (Execute.answers_operation _ _ _ _).value executed
      have inside := Listing.lt_size_of_mem_offsets (formed.jumps _ line jumps)
      exact absurd inside (Nat.not_lt.mpr outside)

/-- An activation that takes a result stays at its place. -/
theorem placed_receive {result : Result} (placed : activation.Placed)
    (received : activation.receive result = .ok resumed) : resumed.Placed := by
  obtain ⟨value, _, _, rfl⟩ := receive_eq_ok received
  exact placed

/-- The value of a call is refused for want of room only. -/
theorem ofExecution_of_receive {value : Value} {failure : Failure}
    (refused : activation.receive (.ok value) = .error failure) :
    failure.cause.ofExecution = true := by
  obtain ⟨function, stack, pc, current, base⟩ := activation
  simp only [receive] at refused
  split at refused
  · cases refused
  · rename_i full
    cases refused
    exact OperandStack.ofExecution_of_push (congrArg Prod.fst full)

end Activation

/-! ## Calls -/

namespace Calling

/-- Laying out values can only overflow the operand stack. -/
theorem ofExecution_of_pushAll {values : List Value} {stack after : OperandStack} {fault : Fault}
    (failed : pushAll values stack = (.error fault, after)) : fault.ofExecution = true := by
  induction values generalizing stack with
  | nil => cases failed
  | cons value values ih =>
      have inTurn : pushAll (value :: values) = (do OperandStack.push value; pushAll values) := rfl
      rw [inTurn, run_bind] at failed
      rcases ran : OperandStack.push value stack with ⟨full | _, middle⟩
      · rw [ran] at failed
        cases failed
        exact OperandStack.ofExecution_of_push (congrArg Prod.fst ran)
      · rw [ran] at failed
        exact ih failed

/-- Laying out arguments raises faults of execution alone. -/
theorem ofExecution_of_pushLexical {callee : Value} {descriptor : Descriptor}
    {arguments : List Value} {maxDepth : Nat} {heap after : Heap} {fault : Fault}
    (failed : pushLexical callee descriptor arguments maxDepth heap = (.error fault, after)) :
    fault.ofExecution = true := by
  unfold pushLexical at failed
  dsimp only at failed
  split at failed
  · cases failed
    rfl
  · rw [run_bind] at failed
    rcases filled : slots descriptor arguments heap with ⟨other | values, middle⟩
    · unfold slots at filled
      split at filled <;> cases filled
    · rw [filled] at failed
      dsimp only at failed
      rcases ran : pushAll values { maxDepth } with ⟨full | _, pushed⟩
      · rw [ran] at failed
        cases failed
        exact ofExecution_of_pushAll ran
      · rw [ran] at failed
        cases failed

/-- Passing arguments raises faults of execution alone, in both conventions. -/
theorem ofExecution_of_prepare {callee : Value} {function : Function} {arguments : List Value}
    {memory after : Memory} {fault : Fault}
    (failed : prepare callee function arguments memory = (.error fault, after)) :
    fault.ofExecution = true := by
  cases parameters : function.parameters with
  | dynamic list =>
      simp only [prepare, parameters, run_bind] at failed
      rcases named : bindDynamic callee list arguments memory with ⟨other | count, middle⟩
      · rw [named] at failed
        cases failed
        exact Fault.ofExecution_of_ofData
          (raisesData_bindDynamic callee list arguments memory fault (by rw [named]))
      · rw [named] at failed
        cases failed
  | lexical descriptor =>
      simp only [prepare, parameters, run_bind, Action.onHeap] at failed
      rcases laid : pushLexical callee descriptor arguments function.maxDepth memory.heap with
        ⟨other | laidOut, left⟩
      · rw [laid] at failed
        cases failed
        exact ofExecution_of_pushLexical laid
      · rw [laid] at failed
        cases failed

end Calling

namespace Context

variable {context after : Context} {callee : Value} {arguments : List Value}

/-- The call is one for a vector that no memory can hold. -/
def Oversized (context : Context) (callee : Value) (arguments : List Value) : Prop :=
  ∃ primitive : Primitive, context.memory.env.indirectFunction callee = .ok (.primitive primitive) ∧
    primitive.Oversized arguments

/-- A call that fails at once does not fail for want of an instruction, and stops the machine
only when it is one for a vector that no memory can hold. -/
theorem ofExecution_or_oversized {fault : Fault}
    (failed : context.dispatch callee arguments = (.error fault, after)) :
    fault.ofExecution = true ∨ fault.isFatal = true ∧ context.Oversized callee arguments := by
  cases dispatched failed with
  | unknown cause => obtain ⟨_, rfl⟩ | ⟨_, rfl⟩ := cause <;> exact .inl rfl
  | refused resolved started =>
      cases activated started with
      | tooDeep => exact .inl rfl
      | unfit room prepared =>
          exact .inl (Calling.ofExecution_of_prepare prepared)
  | @failed primitive _ _ resolved performed =>
      have raised : (primitive.call arguments context.memory).1 = .error fault :=
        congrArg Prod.fst performed
      obtain ofData | ⟨fatal, oversized⟩ := Primitive.ofData_or_oversized raised
      · exact .inl (Fault.ofExecution_of_ofData ofData)
      · exact .inr ⟨fatal, primitive, resolved, oversized⟩

/-- A call that fails at once does not fail for its code: none of it has run. -/
theorem ofCode_of_dispatch {fault : Fault}
    (failed : context.dispatch callee arguments = (.error fault, after)) :
    fault.ofCode = false := by
  obtain ofExecution | ⟨fatal, _⟩ := ofExecution_or_oversized failed
  · exact Fault.ofCode_of_ofExecution ofExecution
  · cases fault with
    | capacityExceeded => rfl
    | _ => cases fatal

/-- A new activation stands at the start of its code. -/
theorem placed_dispatch {activation : Activation}
    (ran : context.dispatch callee arguments = (.ok (.activation activation), after)) :
    activation.Placed := by
  cases dispatched ran with
  | entered resolved started =>
      cases activated started with
      | ready room prepared => exact fun formed => formed.boundary_zero

end Context

/-! ## Runs -/

namespace Machine.Phase

variable {before after phase : Phase}

/-- Every live activation of well-formed code stands at a listed instruction or at the
end of the code. -/
def Placed (phase : Phase) : Prop :=
  ∀ activation ∈ phase.live, activation.Placed

/-- A step leaves every activation at the start of an instruction, when its code is well formed. -/
theorem Next.placed (next : Next before after) (placed : before.Placed) : after.Placed := by
  cases next with
  | proceed stepped onward =>
      obtain ⟨running, waiting⟩ := List.forall_mem_cons.mp placed
      exact List.forall_mem_cons.mpr ⟨Activation.placed_step running stepped, waiting⟩
  | enter stepped dispatched =>
      obtain ⟨running, waiting⟩ := List.forall_mem_cons.mp placed
      refine List.forall_mem_cons.mpr ⟨Context.placed_dispatch dispatched, ?_⟩
      exact List.forall_mem_cons.mpr ⟨Activation.placed_step running stepped, waiting⟩
  | answer stepped dispatched | refuse stepped dispatched =>
      obtain ⟨running, waiting⟩ := List.forall_mem_cons.mp placed
      exact List.forall_mem_cons.mpr ⟨Activation.placed_step running stepped, waiting⟩
  | leave stepped | fail stepped => exact (List.forall_mem_cons.mp placed).2
  | resume received =>
      obtain ⟨caller, waiting⟩ := List.forall_mem_cons.mp placed
      exact List.forall_mem_cons.mpr ⟨Activation.placed_receive caller received, waiting⟩
  | unwind received => exact (List.forall_mem_cons.mp placed).2

/-- So does a run. -/
theorem Reaches.placed (reached : Reaches before after) (placed : before.Placed) :
    after.Placed := by
  induction reached with
  | refl => exact placed
  | tail _ next ih => exact next.placed ih

/-- A fault for want of an instruction arises in an activation whose code is not well
formed. -/
theorem Placed.of_raises {fault : Fault} (placed : phase.Placed) (raises : phase.Raises fault)
    (ofCode : fault.ofCode = true) :
    ∃ activation ∈ phase.live.head?, ¬ activation.function.code.WellFormed := by
  cases raises with
  | @instruction _ _ activation _ _ _ stepped =>
      refine ⟨activation, rfl, fun formed => ?_⟩
      have running := (List.forall_mem_cons.mp placed).1
      rw [Activation.ofCode_of_step running formed stepped] at ofCode
      cases ofCode
  | call stepped dispatched =>
      rw [Context.ofCode_of_dispatch dispatched] at ofCode
      cases ofCode
  | delivery received =>
      rw [Fault.ofCode_of_ofExecution (Activation.ofExecution_of_receive received)] at ofCode
      cases ofCode

end Machine.Phase

namespace Context

variable {context : Context} {callee : Value} {arguments : List Value}

/-- Whatever a machine has done since it was started, its activations are placed. -/
theorem Starts.placed {machine : Machine} {phase : Phase}
    (starts : context.Starts callee arguments machine)
    (reached : Phase.Reaches (.running machine) phase) : phase.Placed := by
  obtain ⟨activation, started, rfl, dispatched⟩ := starts.dispatched
  have atStart : (Phase.running { context := started, activation }).Placed :=
    List.forall_mem_cons.mpr ⟨placed_dispatch dispatched, List.forall_mem_nil _⟩
  exact reached.placed atStart

/-- A call that fails for want of an instruction has reached a place without one, in code
that is not well formed. -/
theorem illFormed_of_call {fuel : Nat} {failure : Failure} {after : Context}
    (returned : context.call fuel callee arguments = some (.error failure, after))
    (ofCode : failure.cause.ofCode = true) :
    ∃ machine phase, context.Starts callee arguments machine ∧
      Phase.Reaches (.running machine) phase ∧ phase.Raises failure.cause ∧
      ∃ activation ∈ phase.live.head?, ¬ activation.function.code.WellFormed := by
  cases Context.returned returned with
  | ended dispatched ran =>
      have starts := Starts.call dispatched
      obtain ⟨phase, reached, raises⟩ := ran.raises
      exact ⟨_, phase, starts, reached, raises, (starts.placed reached).of_raises raises ofCode⟩
  | refused dispatched =>
      rw [ofCode_of_dispatch dispatched] at ofCode
      cases ofCode

/-- In everything that a started machine reaches, each live activation of well-formed code
stands at a listed instruction or at the end of its code. While it is the innermost one, no
fault arises that says that there is no instruction. A call that fails with such a fault has
met it in an activation of code that is not well formed. -/
theorem wellFormed_code_is_safe (context : Context) (callee : Value) (arguments : List Value) :
    (∀ machine phase, context.Starts callee arguments machine →
      Phase.Reaches (.running machine) phase →
      (∀ activation ∈ phase.live, activation.function.code.WellFormed →
        activation.function.code.Boundary activation.pc) ∧
      ∀ activation ∈ phase.live.head?, activation.function.code.WellFormed →
        ∀ fault, phase.Raises fault → fault.ofCode = false) ∧
    (∀ fuel failure after,
      (context.call fuel callee arguments = some (.error failure, after) ∨
        ∃ address, callee = .function address ∧
          context.invoke fuel address arguments = some (.error failure, after)) →
      failure.cause.ofCode = true →
      ∃ machine phase, context.Starts callee arguments machine ∧
        Phase.Reaches (.running machine) phase ∧ phase.Raises failure.cause ∧
        ∃ activation ∈ phase.live.head?, ¬ activation.function.code.WellFormed) := by
  constructor
  · intro machine phase starts reached
    have placed := starts.placed reached
    refine ⟨placed, fun activation innermost formed fault raises => ?_⟩
    refine Bool.eq_false_iff.mpr fun ofCode => ?_
    obtain ⟨other, alsoInnermost, illFormed⟩ := placed.of_raises raises ofCode
    cases Option.mem_unique innermost alsoInnermost
    exact illFormed formed
  · intro fuel failure after returned ofCode
    obtain returned | ⟨address, rfl, returned⟩ := returned
    · exact illFormed_of_call returned ofCode
    · rw [invoke_eq_call] at returned
      exact illFormed_of_call returned ofCode

/-- Code that jumps over an instruction to a call. -/
def callingCode : Bytes := #[130, 4, 0, 193, 192, 32, 135]

/-- A context with a function of that code, which calls one whose only byte is not assigned
to an operation. -/
def callOfBrokenCode : Context where
  memory.heap.functions :=
    ⟨#[⟨.lexical ⟨0, 0, false⟩, callingCode, #[.function 1], 1, none, none⟩,
      ⟨.lexical ⟨0, 0, false⟩, #[143], #[], 0, none, none⟩]⟩

/-- The call fails in the callee, whose code is not well formed, while the caller waits at
an instruction of its own. -/
theorem callOfBrokenCode_fails_in_callee :
    callingCode.WellFormed ∧
    ∃ machine phase, callOfBrokenCode.Starts (.function 0) [] machine ∧
      Phase.Reaches (.running machine) phase ∧ phase.Raises (.code (.invalidOpcode 143 0)) ∧
      (∃ activation ∈ phase.live.head?, ¬ activation.function.code.WellFormed) ∧
      ∀ activation ∈ phase.live, activation.function.code = callingCode →
        callingCode.Boundary activation.pc := by
  have formed : callingCode.WellFormed := by decide +kernel
  have fails : (callOfBrokenCode.call 4 (.function 0) []).bind (fun outcome =>
      outcome.1.casesOn (some ∘ Failure.cause) fun _ => none) =
        some (.code (.invalidOpcode 143 0)) := by
    decide +kernel
  obtain ⟨everywhere, onFailure⟩ := callOfBrokenCode.wellFormed_code_is_safe (.function 0) []
  rcases called : callOfBrokenCode.call 4 (.function 0) [] with _ | ⟨failure | value, after⟩
  · simp [called] at fails
  · rw [called] at fails
    have cause : failure.cause = .code (.invalidOpcode 143 0) := Option.some.inj fails
    obtain ⟨machine, phase, starts, reached, raises, illFormed⟩ :=
      onFailure 4 failure after (.inl called) (by rw [cause]; rfl)
    rw [cause] at raises
    refine ⟨formed, machine, phase, starts, reached, raises, illFormed, ?_⟩
    intro activation isLive same
    have boundary := (everywhere machine phase starts reached).1 activation isLive
    rw [same] at boundary
    exact boundary formed
  · simp [called] at fails

end Context

end ByteLisp
