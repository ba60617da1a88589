import ByteLisp.Code.Cursor
import ByteLisp.Proofs.Encoding

/-!
# Shortest encodings

An instruction may be spelled in several ways: a small operand of a family fits into the code,
into a byte behind it and into a word behind it. Encoding takes the shortest of them. An
instruction that is read from code can be written, in no more bytes than it was read from, and
what is written reads as the same instruction wherever it stands. `Instruction.read_and_written`
says so, and what reading and writing leave behind when they fail.
-/

namespace ByteLisp

/-! ## The meanings of bytes -/

/-- The operand can stand in a code of this kind or behind it. -/
def OperandKind.Holds : OperandKind → UInt16 → Prop
  | none, operand => operand = 0
  | packed inCode, operand => operand = inCode.toUInt16
  | byte, operand => operand.toNat < 256
  | word, _ => True

namespace ByteCode

/-- The meanings that bytes have: the eight codes of each family, the codes of operations with
one code of their own, and the codes of the constants. -/
inductive Assigned : ByteCode → Prop where
  | family {opcode : Opcode} {position : Nat} (family : opcode ∈ Opcode.families) :
      Assigned (inFamily opcode position)
  | dedicated {opcode : Opcode} (own : opcode ∈ Opcode.dedicated) :
      Assigned ⟨opcode, opcode.dedicatedKind⟩
  | constant {index : Nat} (within : index < 64) :
      Assigned ⟨.constant, .packed (UInt8.ofNat index)⟩

/-- Every byte that stands for something stands for it in one of these ways. -/
theorem assigned_of_ofByte? {byte : UInt8} {meaning : ByteCode}
    (known : ofByte? byte = some meaning) : Assigned meaning := by
  have bound := byte.toNat_lt
  unfold ofByte? at known
  split at known
  · obtain ⟨opcode, found, rfl⟩ := Option.map_eq_some_iff.mp known
    exact .family (List.mem_of_getElem? found)
  split at known
  · cases known
    exact .constant (by rw [constantBase]; omega)
  · obtain ⟨opcode, found, rfl⟩ := Option.map_eq_some_iff.mp known
    exact .dedicated (List.mem_of_find?_eq_some found)

@[simp] theorem opcode_inFamily (opcode : Opcode) (position : Nat) :
    (inFamily opcode position).opcode = opcode := by
  unfold inFamily
  split
  · rfl
  · split <;> rfl

end ByteCode

namespace Instruction

variable {bytes : List UInt8} {instruction : Instruction}

/-- What is spelled starts with a code that has a meaning, and is as long as this says. -/
theorem Spells.exists_assigned (spells : Spells bytes instruction) :
    ∃ kind : OperandKind, ByteCode.Assigned ⟨instruction.opcode, kind⟩ ∧
      kind.Holds instruction.operand ∧ bytes.length = kind.instructionLength := by
  cases spells with
  | none meaning => exact ⟨_, ByteCode.assigned_of_ofByte? meaning, rfl, rfl⟩
  | packed meaning => exact ⟨_, ByteCode.assigned_of_ofByte? meaning, rfl, rfl⟩
  | @byte _ operand _ meaning =>
      refine ⟨_, ByteCode.assigned_of_ofByte? meaning, ?_, rfl⟩
      have small := operand.toNat_lt
      rwa [OperandKind.Holds, UInt8.toNat_toUInt16]
  | word meaning => exact ⟨_, ByteCode.assigned_of_ofByte? meaning, trivial, rfl⟩

/-! ## No code is shorter than the encoding -/

/-- A family takes the first of its three forms that holds the operand. -/
theorem encode_family_le {opcode : Opcode} {position : Nat} {operand : UInt16}
    (family : opcode ∈ Opcode.families)
    (holds : (ByteCode.inFamily opcode position).operand.Holds operand) :
    ∃ shortest, encode ⟨opcode, operand⟩ = .ok shortest ∧
      shortest.length ≤ (ByteCode.inFamily opcode position).operand.instructionLength := by
  have isFamily : opcode.isFamily = true := by simpa [Opcode.isFamily] using family
  simp only [encode, isFamily, if_true]
  unfold ByteCode.inFamily at holds ⊢
  split at holds
  next inCode =>
    have small : operand.toNat < inlineLimit := by
      rw [inlineLimit] at inCode ⊢
      rw [holds, UInt8.toNat_toUInt16, UInt8.toNat_ofNat']
      omega
    rw [if_pos small, if_pos inCode]
    exact ⟨_, rfl, Nat.le_refl 1⟩
  next notInCode =>
    rw [if_neg notInCode]
    split at holds
    next atByte =>
      have inByte : operand.toNat < 256 := holds
      rw [if_pos atByte, if_pos inByte]
      split
      · exact ⟨_, rfl, Nat.le_succ 1⟩
      · exact ⟨_, rfl, Nat.le_refl 2⟩
    next notAtByte =>
      rw [if_neg notAtByte]
      split
      · exact ⟨_, rfl, Nat.le_add_left 1 2⟩
      · split
        · exact ⟨_, rfl, Nat.le_succ 2⟩
        · exact ⟨_, rfl, Nat.le_refl 3⟩

/-- An operation with a code of its own has one form. -/
theorem encode_dedicated_le {opcode : Opcode} {operand : UInt16}
    (own : opcode ∈ Opcode.dedicated) (holds : opcode.dedicatedKind.Holds operand) :
    ∃ shortest, encode ⟨opcode, operand⟩ = .ok shortest ∧
      shortest.length ≤ opcode.dedicatedKind.instructionLength := by
  have notFamily : ∀ opcode ∈ Opcode.dedicated, opcode.isFamily = false := by decide
  have notConstant : ∀ opcode ∈ Opcode.dedicated, opcode ≠ .constant := by decide
  simp only [encode, notFamily opcode own, notConstant opcode own, if_false, Bool.false_eq_true]
  cases kind : opcode.dedicatedKind with
  | none =>
      rw [kind] at holds
      have zero : operand = 0 := holds
      rw [if_pos zero]
      exact ⟨_, rfl, Nat.le_refl 1⟩
  | packed inCode =>
      unfold Opcode.dedicatedKind at kind
      split at kind <;> cases kind
  | byte =>
      rw [kind] at holds
      have inByte : operand.toNat < 256 := holds
      rw [if_pos inByte]
      exact ⟨_, rfl, Nat.le_refl 2⟩
  | word => exact ⟨_, rfl, Nat.le_refl 3⟩

/-- What is spelled can be encoded, in no more bytes. -/
theorem Spells.exists_encode_le (spells : Spells bytes instruction) :
    ∃ shortest, instruction.encode = .ok shortest ∧ shortest.length ≤ bytes.length := by
  obtain ⟨opcode, operand⟩ := instruction
  obtain ⟨kind, assigned, holds, length⟩ := spells.exists_assigned
  rw [length]
  generalize meant : ByteCode.mk opcode kind = meaning at assigned
  cases assigned with
  | @family named position family =>
      obtain rfl : opcode = named := by
        rw [← ByteCode.opcode_inFamily named position, ← meant]
      obtain rfl : kind = (ByteCode.inFamily opcode position).operand := by rw [← meant]
      exact encode_family_le family holds
  | dedicated own =>
      cases meant
      exact encode_dedicated_le own holds
  | @constant index within =>
      cases meant
      have small : operand.toNat < 256 - constantBase := by
        have inCode : operand = (UInt8.ofNat index).toUInt16 := holds
        rw [constantBase, inCode, UInt8.toNat_toUInt16, UInt8.toNat_ofNat']
        omega
      refine ⟨[Opcode.constant.byte + operand.toUInt8], ?_, Nat.le_refl 1⟩
      simp only [encode, if_pos small, if_true]
      rfl

/-- What is spelled is shown as it is: a constant with a large index is never spelled. -/
theorem Spells.shown_eq (spells : Spells bytes instruction) : instruction.shown = instruction := by
  obtain ⟨kind, assigned, holds, -⟩ := spells.exists_assigned
  refine if_neg ?_
  rintro ⟨isConstant, large⟩
  rw [isConstant] at assigned
  generalize meant : ByteCode.mk .constant kind = meaning at assigned
  cases assigned with
  | @family named position family =>
      have notConstant : ∀ opcode ∈ Opcode.families, opcode ≠ .constant := by decide
      apply notConstant named family
      rw [← ByteCode.opcode_inFamily named position, ← meant]
  | dedicated own =>
      have notConstant : ∀ opcode ∈ Opcode.dedicated, opcode ≠ .constant := by decide
      cases meant
      exact notConstant _ own rfl
  | @constant index within =>
      cases meant
      have inCode : instruction.operand = (UInt8.ofNat index).toUInt16 := holds
      rw [inCode, UInt8.toNat_toUInt16, UInt8.toNat_ofNat'] at large
      omega

/-! ## Reading and writing -/

/-- What is read somewhere is written in no more bytes, whichever place it is read from. -/
theorem exists_encode_of_decode {code : Bytes} {offset next : Nat}
    (decoded : decode code offset = .ok (instruction, next)) :
    ∃ shortest, instruction.encode = .ok shortest ∧ Spells shortest instruction ∧
      offset + shortest.length ≤ next := by
  obtain ⟨bytes, rest, spells, -, rfl⟩ := exists_spells_of_decode decoded
  obtain ⟨shortest, encoded, short⟩ := spells.exists_encode_le
  refine ⟨shortest, encoded, ?_, Nat.add_le_add_left short offset⟩
  have written := (encode_eq_ok encoded).2
  rwa [spells.shown_eq] at written

/-- Bytes that spell an instruction read as this instruction between any others. -/
theorem Spells.read_between (spells : Spells bytes instruction) (before behind : Bytes) :
    read (before ++ bytes ++ behind) before.size =
      (.ok instruction, before.size + bytes.length) := by
  have found : (before ++ bytes ++ behind).toList.drop before.size = bytes ++ behind.toList := by
    simp
  exact read_eq_ok_iff.mpr (decode_of_spells spells found)

/-- For all code and cursors:
- An instruction that is read can be written. What is written to a buffer takes up no more bytes
  than were read, it reads as the same instruction wherever it stands, up to its end, and the
  instruction is not read anywhere in fewer bytes than these.
- What cannot be read leaves the cursor where it is.
- What cannot be written leaves the buffer as it is. -/
theorem read_and_written (code : Bytes) (cursor : Nat) :
    (∀ instruction next, read code cursor = (.ok instruction, next) →
      ∃ bytes : List UInt8,
        (∀ buffer, write instruction buffer = (.ok (), buffer ++ bytes)) ∧
        cursor + bytes.length ≤ next ∧
        (∀ before behind : Bytes, read (before ++ bytes ++ behind) before.size =
          (.ok instruction, before.size + bytes.length)) ∧
        ∀ shorter : Bytes, shorter.size < bytes.length → ∀ start after,
          read shorter start ≠ (.ok instruction, after)) ∧
    (∀ error after, read code cursor = (.error error, after) → after = cursor) ∧
    ∀ instruction error buffer after, write instruction buffer = (.error error, after) →
      after = buffer := by
  refine ⟨?_, ?_, ?_⟩
  · intro instruction next readHere
    obtain ⟨bytes, encoded, spells, short⟩ := exists_encode_of_decode (read_eq_ok_iff.mp readHere)
    refine ⟨bytes, write_of_encode encoded, short, spells.read_between, ?_⟩
    intro shorter tooShort start after readThere
    have decoded := read_eq_ok_iff.mp readThere
    obtain ⟨others, encodedAlike, -, within⟩ := exists_encode_of_decode decoded
    rw [encoded] at encodedAlike
    cases encodedAlike
    have inside := le_size_of_decode_eq_ok decoded
    omega
  · intro error after failed
    exact (read_eq_error_iff.mp failed).2
  · intro instruction error buffer after refused
    exact eq_of_write_eq_error refused

/-- A call with one more argument than fit into a byte is written in three bytes, and no two
bytes read as this call. -/
theorem call_of_256_takes_three_bytes :
    read #[39, 0, 1] 0 = (.ok ⟨.call, 256⟩, 3) ∧
      write ⟨.call, 256⟩ #[] = (.ok (), #[39, 0, 1]) ∧
      ∀ shorter : Bytes, shorter.size < 3 → ∀ start after,
        read shorter start ≠ (.ok ⟨.call, 256⟩, after) := by
  have encoded : encode ⟨.call, 256⟩ = .ok [39, 0, 1] := rfl
  have written := write_of_encode encoded #[]
  have readHere := (encode_eq_ok encoded).2.read_between #[] #[]
  obtain ⟨bytes, writes, -, -, least⟩ := (read_and_written #[39, 0, 1] 0).1 _ _ readHere
  have length : bytes.length = 3 := by
    have same := congrArg (fun outcome => outcome.2.size) ((writes #[]).symm.trans written)
    simpa using same
  rw [length] at least
  exact ⟨readHere, written, least⟩

end Instruction

end ByteLisp
