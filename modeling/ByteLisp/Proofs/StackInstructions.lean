import ByteLisp.Machine.Execute
import ByteLisp.Proofs.DataFaults
import ByteLisp.Proofs.ShortestEncodings

/-!
# Instructions that move values on the stack

Some instructions do nothing but copy, replace and drop values of the operand stack.
`Execute.Rearranges` says what they make of the list of these values, the lowest first, and when
they fail. The list is cut into parts at the places that an instruction works on, so that no
place is counted twice from different ends. `Execute.values_after_moving` says that the instructions
do exactly this.
-/

namespace ByteLisp

namespace OperandStack

/-- The values on the stack, the lowest first. -/
def values (stack : OperandStack) : List Value :=
  stack.slots.toList

/-- The stack with other values on it. Where there are more than before, it has held as many. -/
def holding (stack : OperandStack) (values : List Value) : OperandStack where
  slots := values.toArray
  maxDepth := stack.maxDepth
  highWater :=
    if stack.depth < values.length then max stack.highWater values.length else stack.highWater

variable {stack : OperandStack}

/-- The operand stack is as deep as it has values. -/
theorem length_values (stack : OperandStack) : stack.values.length = stack.depth :=
  Array.length_toList

/-- An operand stack that is to hold these values has them. -/
@[simp] theorem values_holding (stack : OperandStack) (values : List Value) :
    (stack.holding values).values = values :=
  rfl

/-- Fewer values do not raise the mark of the greatest depth. -/
theorem holding_of_le {values : List Value} (noMore : values.length ≤ stack.depth) :
    stack.holding values = ⟨values.toArray, stack.maxDepth, stack.highWater⟩ := by
  rw [holding, if_neg (Nat.not_lt.mpr noMore)]

/-- To hold what it has changes nothing. -/
theorem holding_values (stack : OperandStack) : stack.holding stack.values = stack :=
  holding_of_le (Nat.le_of_eq stack.length_values)

/-- Of values that become no more, the last ones stay. -/
theorem holding_holding {first second : List Value} (fewer : first.length ≤ stack.depth)
    (noMore : second.length ≤ first.length) :
    (stack.holding first).holding second = stack.holding second := by
  rw [holding_of_le (Nat.le_trans noMore fewer), holding_of_le fewer]
  exact holding_of_le noMore

/-- Where there is room, the value is put on top. -/
theorem push_of_room (room : stack.depth < stack.maxDepth) (value : Value) :
    push value stack = (.ok (), stack.holding (stack.values ++ [value])) := by
  obtain ⟨slots, maxDepth, highWater⟩ := stack
  simp only [depth] at room
  simp [push, holding, values, depth, room, ← List.push_toArray]

/-- A full operand stack refuses the value and stays as it is. -/
theorem push_of_full (full : stack.maxDepth ≤ stack.depth) (value : Value) :
    push value stack = (.error (.stackDepthExceeded stack.maxDepth), stack) := by
  obtain ⟨slots, maxDepth, highWater⟩ := stack
  simp only [depth] at full
  simp [push, Nat.not_lt.mpr full]

/-- The top value is taken. -/
theorem pop_of_concat {rest : List Value} {top : Value} (held : stack.values = rest ++ [top]) :
    pop stack = (.ok top, stack.holding rest) := by
  obtain ⟨slots, maxDepth, highWater⟩ := stack
  obtain rfl : slots = (rest ++ [top]).toArray := Array.toList_inj.mp held
  rw [holding_of_le (by simp [depth])]
  simp [pop]

/-- From an empty operand stack nothing can be taken. -/
theorem pop_of_empty (held : stack.values = []) : pop stack = (.error .stackUnderflow, stack) := by
  obtain ⟨slots, maxDepth, highWater⟩ := stack
  obtain rfl : slots = #[] := Array.toList_inj.mp held
  simp [pop]

/-- A slot is counted from the top. -/
theorem peek_of_place {below above : List Value} {value : Value}
    (held : stack.values = below ++ value :: above) :
    peek above.length stack = (.ok value, stack) := by
  obtain ⟨slots, maxDepth, highWater⟩ := stack
  obtain rfl : slots = (below ++ value :: above).toArray := Array.toList_inj.mp held
  have within : above.length < below.length + (above.length + 1) := by omega
  simp [peek, within]

/-- The first slot is the top. -/
theorem peek_of_concat {rest : List Value} {top : Value} (held : stack.values = rest ++ [top]) :
    peek 0 stack = (.ok top, stack) :=
  peek_of_place held

/-- A slot beyond the bottom is refused. -/
theorem peek_of_past {slot : Nat} (past : stack.depth ≤ slot) :
    peek slot stack = (.error (.stackSlotOutOfRange slot stack.depth), stack) := by
  simp only [depth] at past ⊢
  rw [peek, if_neg (Nat.not_lt.mpr past)]

/-- The value in the slot is replaced, and no other. -/
theorem set_of_place {below above : List Value} {old : Value}
    (held : stack.values = below ++ old :: above) (value : Value) :
    set above.length value stack = (.ok (), stack.holding (below ++ value :: above)) := by
  obtain ⟨slots, maxDepth, highWater⟩ := stack
  obtain rfl : slots = (below ++ old :: above).toArray := Array.toList_inj.mp held
  have within : above.length < below.length + (above.length + 1) := by omega
  simp [set, holding, depth, within]

/-- A slot beyond the bottom is refused. -/
theorem set_of_past {slot : Nat} (past : stack.depth ≤ slot) (value : Value) :
    set slot value stack = (.error (.stackSlotOutOfRange slot stack.depth), stack) := by
  obtain ⟨slots, maxDepth, highWater⟩ := stack
  simp only [depth] at past
  simp [set, depth, Nat.not_lt.mpr past]

/-- The values on top are dropped. -/
theorem dropMany_of_append {below dropped : List Value}
    (held : stack.values = below ++ dropped) :
    dropMany dropped.length stack = (.ok (), stack.holding below) := by
  obtain ⟨slots, maxDepth, highWater⟩ := stack
  obtain rfl : slots = (below ++ dropped).toArray := Array.toList_inj.mp held
  rw [holding_of_le (by simp [depth])]
  simp [dropMany]

/-- More values than there are cannot be dropped, and none is. -/
theorem dropMany_of_past {count : Nat} (past : stack.depth < count) :
    dropMany count stack = (.error .stackUnderflow, stack) := by
  obtain ⟨slots, maxDepth, highWater⟩ := stack
  simp only [depth] at past
  simp [dropMany, Nat.not_le.mpr past]

end OperandStack

namespace Execute

/-- What an instruction that moves values makes of the values on the stack, the lowest first,
where there may be up to `limit` of them. Places below the top are counted from zero. -/
inductive Rearranges (limit : Nat) :
    Instruction → List Value → Except Fault Flow → List Value → Prop where
  /-- The value at a place is copied to the top. -/
  | copied {n : UInt16} {below above : List Value} {value : Value}
      (place : above.length = n.toNat) (room : (below ++ value :: above).length < limit) :
      Rearranges limit ⟨.stackRef, n⟩ (below ++ value :: above) (.ok .next)
        (below ++ value :: above ++ [value])
  | copyMissing {n : UInt16} {values : List Value} (few : values.length ≤ n.toNat) :
      Rearranges limit ⟨.stackRef, n⟩ values
        (.error (.stackSlotOutOfRange n.toNat values.length)) values
  | copyFull {n : UInt16} {values : List Value} (found : n.toNat < values.length)
      (full : limit ≤ values.length) :
      Rearranges limit ⟨.stackRef, n⟩ values (.error (.stackDepthExceeded limit)) values
  /-- The top is taken off and put in the place of the value that was `n` below it. -/
  | stored {opcode : Opcode} {n : UInt16} {below above : List Value} {old top : Value}
      (stores : opcode = .stackSet ∨ opcode = .stackSet2) (place : above.length + 1 = n.toNat) :
      Rearranges limit ⟨opcode, n⟩ (below ++ old :: above ++ [top]) (.ok .next)
        (below ++ top :: above)
  /-- The top would be put in its own place, and is only taken off. -/
  | storedNowhere {opcode : Opcode} {rest : List Value} {top : Value}
      (stores : opcode = .stackSet ∨ opcode = .stackSet2) :
      Rearranges limit ⟨opcode, 0⟩ (rest ++ [top]) (.ok .next) rest
  /-- There is no such place; the top has been taken off. -/
  | storeMissing {opcode : Opcode} {n : UInt16} {rest : List Value} {top : Value}
      (stores : opcode = .stackSet ∨ opcode = .stackSet2) (few : rest.length < n.toNat) :
      Rearranges limit ⟨opcode, n⟩ (rest ++ [top])
        (.error (.stackSlotOutOfRange (n.toNat - 1) rest.length)) rest
  | storeEmpty {opcode : Opcode} {n : UInt16}
      (stores : opcode = .stackSet ∨ opcode = .stackSet2) :
      Rearranges limit ⟨opcode, n⟩ [] (.error .stackUnderflow) []
  /-- Without the flag, the top values are dropped. -/
  | dropped {n : UInt16} {below above : List Value} (count : above.length = n.toNat)
      (unflagged : n.toNat < 128) :
      Rearranges limit ⟨.discardN, n⟩ (below ++ above) (.ok .next) below
  | dropMissing {n : UInt16} {values : List Value} (few : values.length < n.toNat)
      (unflagged : n.toNat < 128) :
      Rearranges limit ⟨.discardN, n⟩ values (.error .stackUnderflow) values
  /-- With the flag, the values below the top are dropped. -/
  | droppedBeneath {n : UInt16} {below beneath : List Value} {top : Value}
      (count : 128 + beneath.length = n.toNat) (some : beneath ≠ []) :
      Rearranges limit ⟨.discardN, n⟩ (below ++ beneath ++ [top]) (.ok .next) (below ++ [top])
  /-- With the flag and without a count nothing is dropped, and nothing need be there. -/
  | droppedNothing {n : UInt16} {values : List Value} (flagOnly : n.toNat = 128) :
      Rearranges limit ⟨.discardN, n⟩ values (.ok .next) values
  | dropBeneathMissing {n : UInt16} {values : List Value} (flagged : 128 < n.toNat)
      (few : 128 + values.length ≤ n.toNat) :
      Rearranges limit ⟨.discardN, n⟩ values
        (.error (.stackSlotOutOfRange (if values = [] then 0 else n.toNat - 128) values.length))
        values

/-- The topmost values, and those below them. -/
theorem exists_cut {values : List Value} {count : Nat} (enough : count ≤ values.length) :
    ∃ below above, values = below ++ above ∧ above.length = count := by
  refine ⟨values.take (values.length - count), values.drop (values.length - count),
    (List.take_append_drop ..).symm, ?_⟩
  rw [List.length_drop]
  omega

/-- The value at a place below the top, between the values below it and those above. -/
theorem exists_place {values : List Value} {n : Nat} (found : n < values.length) :
    ∃ below value above, values = below ++ value :: above ∧ above.length = n := by
  obtain ⟨below, above, rfl, length⟩ := exists_cut (Nat.succ_le_of_lt found)
  cases above with
  | nil => cases length
  | cons value above => exact ⟨below, value, above, rfl, Nat.succ.inj length⟩

/-- Where there are values, there is one on top. -/
theorem exists_top {values : List Value} (nonempty : values ≠ []) :
    ∃ rest top, values = rest ++ [top] :=
  ⟨_, _, (List.dropLast_concat_getLast nonempty).symm⟩

/-- A stack operation, and what follows it. -/
theorem onStack_bind {α β : Type} (stackOperation : StackM α) (rest : α → ExecM β)
    (context : Context) (stack : OperandStack) :
    (ExecM.onStack stackOperation >>= rest) ⟨context, stack⟩ = match stackOperation stack with
      | (.ok value, after) => rest value ⟨context, after⟩
      | (.error fault, after) => (.error fault, ⟨context, after⟩) := by
  rw [run_bind]
  rcases ran : stackOperation stack with ⟨fault | value, after⟩ <;>
    simp only [ExecM.onStack, ran]

/-! ## The programs of the instructions -/

/-- The two instructions that store differ in the size of their operand only. -/
theorem executed_store {opcode : Opcode} (stores : opcode = .stackSet ∨ opcode = .stackSet2)
    (constants : Array Value) (base : Nat) (n : UInt16) :
    Execute.instruction constants base ⟨opcode, n⟩ = store n.toNat := by
  obtain rfl | rfl := stores <;> rfl

/-- A value is popped before its slot is counted, so the slot is one nearer. -/
theorem store_of_pos {slot : Nat} (positive : 0 < slot) :
    store slot = do
      let value ← ExecM.pop
      ExecM.onStack (OperandStack.set (slot - 1) value)
      return Flow.next := by
  simp only [store, if_pos (Nat.ne_of_gt positive)]

/-- Without the flag, or without a count, values are dropped from the top. -/
theorem discard_of_le {operand : Nat} (unflagged : operand < 128 ∨ operand = 128) :
    discard operand = do
      ExecM.onStack (OperandStack.dropMany (operand % 128))
      return Flow.next := by
  have plain : ¬ (128 ≤ operand && operand % 128 ≠ 0) = true := by
    simp only [ne_eq, decide_not, Bool.and_eq_true, decide_eq_true_eq, Bool.not_eq_true',
      decide_eq_false_iff_not, not_and, Decidable.not_not]
    omega
  simp only [discard, if_neg plain]

/-- With the flag the top value is first moved beneath those that are dropped. -/
theorem discard_of_flagged {operand : Nat} (flagged : 128 < operand) (isByte : operand < 256) :
    discard operand = do
      let top ← ExecM.onStack (OperandStack.peek 0)
      ExecM.onStack (OperandStack.set (operand - 128) top)
      ExecM.onStack (OperandStack.dropMany (operand - 128))
      return Flow.next := by
  have count : operand % 128 = operand - 128 := by omega
  have keeps : (128 ≤ operand && operand % 128 ≠ 0) = true := by
    simp only [ne_eq, decide_not, Bool.and_eq_true, decide_eq_true_eq, Bool.not_eq_true',
      decide_eq_false_iff_not]
    omega
  simp only [discard, if_pos keeps]
  rw [count]

/-! ## What the programs do to the list of values -/

section Execution

variable {context : Context} {stack : OperandStack}

/-- A copy of the value in the slot is put on top, where there is room. -/
theorem copy_of_place {below above : List Value} {value : Value}
    (holds : stack.values = below ++ value :: above) :
    copy above.length ⟨context, stack⟩ =
      if stack.depth < stack.maxDepth then
        (.ok .next, ⟨context, stack.holding (below ++ value :: above ++ [value])⟩)
      else (.error (.stackDepthExceeded stack.maxDepth), ⟨context, stack⟩) := by
  simp only [copy, onStack_bind, ExecM.push, OperandStack.peek_of_place holds]
  by_cases room : stack.depth < stack.maxDepth
  · rw [OperandStack.push_of_room room, if_pos room, holds]
    rfl
  · rw [OperandStack.push_of_full (Nat.le_of_not_lt room), if_neg room]

/-- The top takes the place of the lowest value that is dropped, and then everything above it is
dropped. -/
theorem discard_beneath {below beneath : List Value} {top : Value} {operand : Nat}
    (holds : stack.values = below ++ beneath ++ [top]) (some : beneath ≠ [])
    (count : 128 + beneath.length = operand) (isByte : operand < 256) :
    discard operand ⟨context, stack⟩ = (.ok .next, ⟨context, stack.holding (below ++ [top])⟩) := by
  obtain ⟨lowest, others, rfl⟩ := List.exists_cons_of_ne_nil some
  have depth := stack.length_values
  simp only [holds, List.length_append, List.length_cons, List.length_nil] at depth count
  have place : stack.values = below ++ lowest :: (others ++ [top]) := by simp [holds]
  have written := OperandStack.set_of_place place top
  have cut : (stack.holding (below ++ top :: (others ++ [top]))).values =
      (below ++ [top]) ++ (others ++ [top]) := by simp
  have dropped := OperandStack.dropMany_of_append cut
  rw [OperandStack.holding_holding (by simp; omega) (by simp)] at dropped
  have slot : operand - 128 = (others ++ [top]).length := by simp; omega
  rw [discard_of_flagged (by omega) isByte, slot]
  simp only [onStack_bind, OperandStack.peek_of_concat holds, written, dropped]
  rfl

/-- Where there are too few values, nothing is moved and nothing is dropped. -/
theorem discard_beneath_missing {operand : Nat} (flagged : 128 < operand) (isByte : operand < 256)
    (few : 128 + stack.depth ≤ operand) :
    discard operand ⟨context, stack⟩ =
      (.error (.stackSlotOutOfRange (if stack.values = [] then 0 else operand - 128) stack.depth),
        ⟨context, stack⟩) := by
  rw [discard_of_flagged flagged isByte]
  split
  case isTrue empty =>
    have none : stack.depth ≤ 0 := by simp [← stack.length_values, empty]
    simp only [onStack_bind, OperandStack.peek_of_past none]
  case isFalse some =>
    obtain ⟨rest, top, holds⟩ := exists_top some
    simp only [onStack_bind, OperandStack.peek_of_concat holds,
      OperandStack.set_of_past (Nat.le_sub_of_add_le' few)]

/-- What the list of values becomes is what the stack holds after the instruction. -/
theorem Rearranges.executed {instruction : Instruction} {held left : List Value}
    {outcome : Except Fault Flow}
    (rearranges : Rearranges stack.maxDepth instruction held outcome left)
    (holds : stack.values = held)
    (isByte : instruction.opcode = .discardN → instruction.operand.toNat < 256)
    (constants : Array Value) (base : Nat) (context : Context) :
    Execute.instruction constants base instruction ⟨context, stack⟩ =
      (outcome, ⟨context, stack.holding left⟩) := by
  have depth := stack.length_values
  rw [holds] at depth
  have unchanged : stack.holding held = stack := by rw [← holds, stack.holding_values]
  cases rearranges with
  | @copied n below above value place room =>
      simp only [Execute.instruction, operation]
      rw [← place, copy_of_place holds, if_pos (depth ▸ room)]
  | copyMissing few =>
      rw [unchanged, depth]
      simp only [Execute.instruction, operation, copy, onStack_bind,
        OperandStack.peek_of_past (depth ▸ few)]
  | copyFull found full =>
      obtain ⟨below, value, above, rfl, place⟩ := exists_place found
      simp only [Execute.instruction, operation]
      rw [← place, copy_of_place holds, if_neg (by omega), unchanged]
  | @stored opcode n below above old top stores place =>
      have slot : n.toNat - 1 = above.length := by omega
      have stays : (stack.holding (below ++ old :: above)).holding (below ++ top :: above) =
          stack.holding (below ++ top :: above) :=
        OperandStack.holding_holding (by simp at depth ⊢; omega) (by simp)
      have written := OperandStack.set_of_place
        (stack.values_holding (below ++ old :: above)) top
      rw [stays] at written
      rw [executed_store stores, store_of_pos (by omega)]
      simp only [ExecM.pop, onStack_bind, OperandStack.pop_of_concat holds, slot, written]
      rfl
  | storedNowhere stores =>
      rw [executed_store stores]
      simp only [store, ExecM.pop, onStack_bind, OperandStack.pop_of_concat holds]
      rfl
  | @storeMissing opcode n rest top stores few =>
      have rested : (stack.holding left).depth = left.length := by
        rw [← OperandStack.length_values, OperandStack.values_holding]
      have past : (stack.holding left).depth ≤ n.toNat - 1 := by omega
      rw [executed_store stores, store_of_pos (by omega)]
      simp only [ExecM.pop, onStack_bind, OperandStack.pop_of_concat holds,
        OperandStack.set_of_past past, rested]
  | storeEmpty stores =>
      rw [executed_store stores, unchanged]
      simp only [store, ExecM.pop, onStack_bind, OperandStack.pop_of_empty holds]
  | @dropped n below above count unflagged =>
      have operand : n.toNat % 128 = above.length := by omega
      simp only [Execute.instruction, operation]
      rw [discard_of_le (.inl unflagged), operand, onStack_bind,
        OperandStack.dropMany_of_append holds]
      rfl
  | dropMissing few unflagged =>
      simp only [Execute.instruction, operation]
      rw [discard_of_le (.inl unflagged), onStack_bind,
        OperandStack.dropMany_of_past (by omega), unchanged]
  | droppedBeneath count some =>
      exact discard_beneath holds some count (isByte rfl)
  | @droppedNothing n _ flagOnly =>
      have cut : stack.values = held ++ [] := by simp [holds]
      have count : n.toNat % 128 = ([] : List Value).length := by simp [flagOnly]
      simp only [Execute.instruction, operation]
      rw [discard_of_le (.inr flagOnly), count, onStack_bind, OperandStack.dropMany_of_append cut]
      rfl
  | dropBeneathMissing flagged few =>
      rw [unchanged, depth, ← holds]
      exact discard_beneath_missing flagged (isByte rfl) (depth ▸ few)

end Execution

/-! ## Every list of values becomes something -/

section Existence

variable (limit : Nat) (values : List Value)

/-- Copying a slot has an outcome on every operand stack. -/
theorem exists_rearranges_copy (n : UInt16) :
    ∃ outcome left, Rearranges limit ⟨.stackRef, n⟩ values outcome left := by
  by_cases found : n.toNat < values.length
  · by_cases room : values.length < limit
    · obtain ⟨below, value, above, rfl, place⟩ := exists_place found
      exact ⟨_, _, .copied place room⟩
    · exact ⟨_, _, .copyFull found (Nat.le_of_not_lt room)⟩
  · exact ⟨_, _, .copyMissing (Nat.le_of_not_lt found)⟩

/-- So has storing into a slot. -/
theorem exists_rearranges_store {opcode : Opcode}
    (stores : opcode = .stackSet ∨ opcode = .stackSet2) (n : UInt16) :
    ∃ outcome left, Rearranges limit ⟨opcode, n⟩ values outcome left := by
  by_cases empty : values = []
  · subst empty
    exact ⟨_, _, .storeEmpty stores⟩
  · obtain ⟨rest, top, rfl⟩ := exists_top empty
    by_cases few : rest.length < n.toNat
    · exact ⟨_, _, .storeMissing stores few⟩
    · by_cases zero : n = 0
      · subst zero
        exact ⟨_, _, .storedNowhere stores⟩
      · have positive : n.toNat ≠ 0 := fun same => zero (UInt16.toNat_inj.mp same)
        obtain ⟨below, old, above, rfl, place⟩ :=
          exists_place (by omega : n.toNat - 1 < rest.length)
        exact ⟨_, _, .stored stores (by omega)⟩

/-- So has discarding values. -/
theorem exists_rearranges_discard (n : UInt16) :
    ∃ outcome left, Rearranges limit ⟨.discardN, n⟩ values outcome left := by
  obtain unflagged | flagOnly | flagged := Nat.lt_trichotomy n.toNat 128
  · by_cases few : values.length < n.toNat
    · exact ⟨_, _, .dropMissing few unflagged⟩
    · obtain ⟨below, above, rfl, count⟩ := exists_cut (Nat.le_of_not_lt few)
      exact ⟨_, _, .dropped count unflagged⟩
  · exact ⟨_, _, .droppedNothing flagOnly⟩
  · by_cases few : 128 + values.length ≤ n.toNat
    · exact ⟨_, _, .dropBeneathMissing flagged few⟩
    · obtain ⟨rest, top, rfl⟩ : ∃ rest top, values = rest ++ [top] := by
        refine exists_top fun empty => few ?_
        rw [empty, List.length_nil]
        omega
      rw [List.length_append, List.length_singleton] at few
      obtain ⟨below, beneath, rfl, count⟩ :=
        exists_cut (by omega : n.toNat - 128 ≤ rest.length)
      exact ⟨_, _, .droppedBeneath (by omega) (List.ne_nil_of_length_pos (by omega))⟩

/-- So has each of the four instructions. -/
theorem exists_rearranges {instruction : Instruction}
    (moves : instruction.opcode ∈ [Opcode.stackRef, .stackSet, .stackSet2, .discardN]) :
    ∃ outcome left, Rearranges limit instruction values outcome left := by
  obtain ⟨opcode, n⟩ := instruction
  simp only [List.mem_cons, List.not_mem_nil, or_false] at moves
  obtain rfl | rfl | rfl | rfl := moves
  · exact exists_rearranges_copy limit values n
  · exact exists_rearranges_store limit values (.inl rfl) n
  · exact exists_rearranges_store limit values (.inr rfl) n
  · exact exists_rearranges_discard limit values n

end Existence

/-- The operand of a discarding instruction is one byte. -/
theorem operand_lt_of_decode {code : Bytes} {offset next : Nat} {instruction : Instruction}
    (decoded : Instruction.decode code offset = .ok (instruction, next))
    (discards : instruction.opcode = .discardN) : instruction.operand.toNat < 256 := by
  obtain ⟨bytes, encoded, -, -⟩ := Instruction.exists_encode_of_decode decoded
  have fits := (Instruction.encode_eq_ok encoded).1.oneByte (by simp [discards])
  omega

/-- For every instruction that is read from code and copies, stores or discards values, and for
every stack: the outcome of the instruction and the values that it leaves on the stack are those
of `Rearranges`. The context stays as it is. -/
theorem values_after_moving (code : Bytes) (offset next : Nat) (instruction : Instruction)
    (decoded : Instruction.decode code offset = .ok (instruction, next))
    (moves : instruction.opcode ∈ [Opcode.stackRef, .stackSet, .stackSet2, .discardN])
    (constants : Array Value) (base : Nat) (context : Context) (stack : OperandStack)
    (outcome : Except Fault Flow) (after : Running) :
    Execute.instruction constants base instruction ⟨context, stack⟩ = (outcome, after) ↔
      ∃ left, Rearranges stack.maxDepth instruction stack.values outcome left ∧
        after = ⟨context, stack.holding left⟩ := by
  have isByte := operand_lt_of_decode decoded
  constructor
  · intro ran
    obtain ⟨given, left, rearranges⟩ := exists_rearranges stack.maxDepth stack.values moves
    have executed := rearranges.executed rfl isByte constants base context
    rw [ran] at executed
    cases executed
    exact ⟨left, rearranges, rfl⟩
  · rintro ⟨left, rearranges, rfl⟩
    exact rearranges.executed rfl isByte constants base context

/-- With the flag, two values are dropped from beneath the top of three. -/
theorem two_dropped_beneath_top :
    Instruction.decode #[182, 0x82] 0 = .ok (⟨.discardN, 0x82⟩, 2) ∧
      Execute.instruction #[] 0 ⟨.discardN, 0x82⟩
          ⟨{}, { slots := #[.int 1, .int 2, .int 3], maxDepth := 3, highWater := 3 }⟩ =
        (.ok .next, ⟨{}, { slots := #[.int 3], maxDepth := 3, highWater := 3 }⟩) := by
  have decoded : Instruction.decode #[182, 0x82] 0 = .ok (⟨.discardN, 0x82⟩, 2) := by
    have meaning : ByteCode.ofByte? 182 = some ⟨.discardN, .byte⟩ :=
      ByteCode.ofByte?_dedicated .discardN (by decide)
    simp [Instruction.decode_eq, Instruction.operandAt?, meaning, OperandKind.instructionLength]
  refine ⟨decoded, (values_after_moving #[182, 0x82] 0 2 _ decoded (by decide) _ _ _ _ _ _).mpr ?_⟩
  have dropped : Rearranges 3 ⟨.discardN, 0x82⟩ ([] ++ [.int 1, .int 2] ++ [.int 3]) (.ok .next)
      ([] ++ [.int 3]) := .droppedBeneath rfl (by simp)
  exact ⟨_, dropped, rfl⟩

end Execute

end ByteLisp
