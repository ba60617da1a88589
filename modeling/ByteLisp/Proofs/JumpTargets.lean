import ByteLisp.Proofs.AssemblyHistory
import ByteLisp.Proofs.CodeSafety

/-!
# Where a jump is pointed to a target

Pointing a jump to a target is asked for by an offset. What is checked is the byte at that
offset: it has to be the code of a jump, with two more bytes behind it. At the offset of a line of
the listing this is the right test, and the line gets its target while all others stay. But an
operand may hold any bytes, and one of them may be the code of a jump. At such an offset the test
is passed, and the two bytes behind it are overwritten, whatever they belong to.
`Assembler.patchJump_by_listing` says so for all code, and `Assembler.operand_taken_for_jump` has
a case in which an instruction is lost.
-/

namespace ByteLisp

namespace Listing

variable {code : Bytes} {offset position : Nat} {instruction : Instruction}

/-- Every byte behind an offset is part of a line, or it lies behind the place at which the
listing stops. -/
theorem exists_line_around (reached : offset ≤ position) (within : position < code.size) :
    (∃ start instruction next, (start, instruction) ∈ (startingAt code offset).lines ∧
      Instruction.decode code start = .ok (instruction, next) ∧ start ≤ position ∧
      position < next) ∨
    ∃ stop error, (startingAt code offset).stoppedBy = some error ∧ stop ≤ position ∧
      Instruction.decode code stop = .error error := by
  fun_induction startingAt code offset with
  | case1 offset inside error failed => exact .inr ⟨offset, error, rfl, reached, failed⟩
  | case2 offset inside instruction next decoded rest ih =>
      by_cases here : position < next
      · exact .inl ⟨offset, instruction, next, List.mem_cons_self, decoded, reached, here⟩
      · obtain ⟨start, other, after, listed, around⟩ | stopped := ih (Nat.le_of_not_lt here)
        · exact .inl ⟨start, other, after, List.mem_cons_of_mem _ listed, around⟩
        · exact .inr stopped
  | case3 offset outside => omega

/-- Overwriting the target of a jump that is listed changes this line and no other, also when
the listing stops at an error behind it. -/
theorem ofCode_pointed (target : UInt16) (listed : (position, instruction) ∈ (ofCode code).lines)
    (jumps : instruction.opcode.isJump = true) :
    ofCode (Assembler.pointed code position target) =
      ⟨(ofCode code).lines.map (retarget position target), (ofCode code).stoppedBy⟩ := by
  obtain ⟨bytes, rest, found, spelled, stops⟩ := exists_spelled code 0
  rw [List.drop_zero] at found
  rw [Nat.zero_add] at stops
  obtain ⟨byte, -, -, room⟩ := spelled.code_of_mem listed jumps
  have overwritten := spelled.set_target target listed jumps
  rw [Nat.sub_zero] at room overwritten
  have written : (Assembler.pointed code position target).toList.drop 0 =
      (bytes.set (position + 1) (Word.low target)).set (position + 2) (Word.high target) ++
        rest := by
    rw [List.drop_zero, Assembler.pointed, Array.toList_setIfInBounds, Array.toList_setIfInBounds,
      found, List.set_append_left _ _ (by omega),
      List.set_append_left _ _ (by rw [List.length_set]; omega)]
  -- Behind the lines the code is as it was, so the listing stops there as before.
  have behind : startingAt (Assembler.pointed code position target) bytes.length =
      startingAt code bytes.length := by
    apply startingAt_congr
    intro place beyond
    rw [Assembler.pointed, Array.getElem?_setIfInBounds_ne (by omega),
      Array.getElem?_setIfInBounds_ne (by omega)]
  have listing := startingAt_of_spelled_append overwritten written
  rw [List.length_set, List.length_set, Nat.zero_add, behind, stops, List.append_nil] at listing
  exact listing

end Listing

namespace Assembler

variable {assembler : Assembler} {position : Nat} {instruction : Instruction}

/-- At the offset of a line the byte that is looked at is the code of its operation. -/
theorem isJumpAt_of_listed
    (listed : (position, instruction) ∈ (Listing.ofCode assembler.code).lines) :
    assembler.isJumpAt position = instruction.opcode.isJump := by
  obtain ⟨next, decoded, -⟩ := Listing.decode_of_mem_lines listed
  obtain ⟨bytes, rest, spells, found, -⟩ := Instruction.exists_spells_of_decode decoded
  have first : assembler.code[position]? = (bytes ++ rest)[0]? := by
    rw [← found, List.getElem?_drop, Nat.add_zero, Array.getElem?_toList]
  cases spells with
  | none meaning | packed meaning | byte meaning | word meaning =>
      rw [List.cons_append, List.getElem?_cons_zero] at first
      simp [isJumpAt, first, meaning]

/-- A listed jump has its two bytes. -/
theorem room_of_listed
    (listed : (position, instruction) ∈ (Listing.ofCode assembler.code).lines)
    (jumps : instruction.opcode.isJump = true) : position + 3 ≤ assembler.code.size := by
  obtain ⟨bytes, rest, found, spelled, -⟩ := Listing.exists_spelled assembler.code 0
  obtain ⟨byte, -, -, room⟩ := spelled.code_of_mem listed jumps
  have lengths := congrArg List.length found
  rw [List.drop_zero, Array.length_toList, List.length_append] at lengths
  omega

/-- When a target is accepted, and what becomes of the code. -/
theorem patchJump_eq_ok_iff {target : Nat} {after : Assembler} :
    assembler.patchJump position target = .ok after ↔
      assembler.isJumpAt position = true ∧ position + 3 ≤ assembler.code.size ∧ target ≤ 65535 ∧
        after = ⟨pointed assembler.code position (UInt16.ofNat target)⟩ := by
  simp only [patchJump, pointed]
  split
  next missing =>
    simp only [Bool.or_eq_true, Bool.not_eq_true', decide_eq_true_eq] at missing
    simp only [reduceCtorEq, false_iff, not_and]
    intro jumpAt room
    obtain noJump | short := missing
    · rw [jumpAt] at noJump
      cases noJump
    · omega
  next present =>
    simp only [Bool.or_eq_true, Bool.not_eq_true', decide_eq_true_eq, not_or, Bool.not_eq_false,
      Nat.not_lt] at present
    split
    next small =>
      simp only [Except.ok.injEq, present, Nat.le_of_lt_succ small, true_and]
      exact eq_comm
    next large =>
      simp only [reduceCtorEq, false_iff, not_and]
      omega

/-- At the offset of a line, what is accepted are targets of jumps. -/
theorem patchJump_eq_ok_iff_of_listed {target : Nat}
    (listed : (position, instruction) ∈ (Listing.ofCode assembler.code).lines) :
    (∃ after, assembler.patchJump position target = .ok after) ↔
      instruction.opcode.isJump = true ∧ target ≤ 65535 := by
  simp only [patchJump_eq_ok_iff, isJumpAt_of_listed listed]
  constructor
  · rintro ⟨after, jumps, -, small, -⟩
    exact ⟨jumps, small⟩
  · rintro ⟨jumps, small⟩
    exact ⟨_, jumps, room_of_listed listed jumps, small, rfl⟩

/-- For all code, offsets and targets:
- What is refused leaves the code as it is.
- At the offset of a line, a target within 16 bits is accepted exactly when the line is a jump,
  and then this line has the target, all others are as they were, and the listing ends as before.
- What is accepted overwrites the two bytes behind the offset. The offset is that of a jump in the
  listing, or it lies inside the operand of a line, or behind the error at which the listing
  stops. -/
theorem patchJump_by_listing (assembler : Assembler) (position target : Nat) :
    (∀ error, assembler.patchJump position target = .error error →
      assembler.perform (.patchJump position target) = (.error error, assembler)) ∧
    (∀ instruction, (position, instruction) ∈ (Listing.ofCode assembler.code).lines →
      ((∃ after, assembler.patchJump position target = .ok after) ↔
        instruction.opcode.isJump = true ∧ target ≤ 65535) ∧
      ∀ after, assembler.patchJump position target = .ok after →
        Listing.ofCode after.code =
          ⟨(Listing.ofCode assembler.code).lines.map
            (Listing.retarget position (UInt16.ofNat target)),
            (Listing.ofCode assembler.code).stoppedBy⟩) ∧
    ∀ after, assembler.patchJump position target = .ok after →
      assembler.perform (.patchJump position target) = (.ok none, after) ∧
      after.code = pointed assembler.code position (UInt16.ofNat target) ∧
      ((∃ instruction, (position, instruction) ∈ (Listing.ofCode assembler.code).lines ∧
          instruction.opcode.isJump = true) ∨
        (∃ start instruction next,
          (start, instruction) ∈ (Listing.ofCode assembler.code).lines ∧
          Instruction.decode assembler.code start = .ok (instruction, next) ∧
          start < position ∧ position < next) ∨
        ∃ stop error, (Listing.ofCode assembler.code).stoppedBy = some error ∧
          stop ≤ position ∧ Instruction.decode assembler.code stop = .error error) := by
  refine ⟨?_, ?_, ?_⟩
  · intro error refused
    rw [perform, refused]
  · intro instruction listed
    refine ⟨patchJump_eq_ok_iff_of_listed listed, fun after accepted => ?_⟩
    obtain ⟨jumpAt, -, -, rfl⟩ := patchJump_eq_ok_iff.mp accepted
    rw [isJumpAt_of_listed listed] at jumpAt
    exact Listing.ofCode_pointed (UInt16.ofNat target) listed jumpAt
  · intro after accepted
    obtain ⟨jumpAt, room, -, rfl⟩ := patchJump_eq_ok_iff.mp accepted
    refine ⟨by rw [perform, accepted], rfl, ?_⟩
    have within : position < assembler.code.size := by omega
    obtain ⟨start, instruction, next, listed, decoded, before, behind⟩ | stopped :=
      Listing.exists_line_around (Nat.zero_le position) within
    · obtain inside | rfl := Nat.lt_or_eq_of_le before
      · exact .inr (.inl ⟨start, instruction, next, listed, decoded, inside, behind⟩)
      · rw [isJumpAt_of_listed listed] at jumpAt
        exact .inl ⟨instruction, listed, jumpAt⟩
    · exact .inr (.inr stopped)

/-- A jump over a constant whose index is the code of a jump. -/
def overConstant : List Step :=
  [.emitJump .gotoIfNil, .emit ⟨.constant, 130⟩, .emit ⟨.ret, 0⟩]

/-- The code of the example has three instructions: a jump, a wide constant and a return. -/
theorem listing_overConstant :
    Listing.ofCode (performAll {} overConstant).code =
      ⟨[(0, ⟨.gotoIfNil, 0⟩), (3, ⟨.constant2, 130⟩), (6, ⟨.ret, 0⟩)], none⟩ := by
  have encoded : Instruction.encodeAll [⟨.gotoIfNil, 0⟩, ⟨.constant, 130⟩, ⟨.ret, 0⟩] =
      .ok (performAll {} overConstant).code := rfl
  exact Listing.startingAt_of_encodeAll encoded (by simp)

/-- The jump is pointed to the end. -/
theorem overConstant_pointed :
    ∃ after, (performAll {} overConstant).patchJump 0 7 = .ok after ∧
      Listing.ofCode after.code =
        ⟨[(0, ⟨.gotoIfNil, 7⟩), (3, ⟨.constant2, 130⟩), (6, ⟨.ret, 0⟩)], none⟩ := by
  obtain ⟨-, atLine, -⟩ := patchJump_by_listing (performAll {} overConstant) 0 7
  have listed : (0, ⟨.gotoIfNil, 0⟩) ∈
      (Listing.ofCode (performAll {} overConstant).code).lines := by
    rw [listing_overConstant]
    exact List.mem_cons_self
  obtain ⟨accepted_iff, relisted⟩ := atLine _ listed
  obtain ⟨after, accepted⟩ := accepted_iff.mpr ⟨rfl, by decide⟩
  refine ⟨after, accepted, ?_⟩
  rw [relisted after accepted, listing_overConstant]
  rfl

/-- At the index of the constant a target is accepted as well, though no instruction starts
there. The return behind the constant is overwritten. -/
theorem operand_taken_for_jump :
    (∀ instruction,
      (4, instruction) ∉ (Listing.ofCode (performAll {} overConstant).code).lines) ∧
    ((performAll {} overConstant).perform (.patchJump 4 0)).1 = .ok none ∧
    Listing.ofCode ((performAll {} overConstant).perform (.patchJump 4 0)).2.code =
      ⟨[(0, ⟨.gotoIfNil, 0⟩), (3, ⟨.constant2, 130⟩), (6, ⟨.stackRef, 0⟩)], none⟩ := by
  refine ⟨?_, rfl, ?_⟩
  · simp [listing_overConstant]
  · have encoded : Instruction.encodeAll [⟨.gotoIfNil, 0⟩, ⟨.constant, 130⟩, ⟨.stackRef, 0⟩] =
        .ok ((performAll {} overConstant).perform (.patchJump 4 0)).2.code := rfl
    exact Listing.startingAt_of_encodeAll encoded (by simp)

end Assembler

end ByteLisp
