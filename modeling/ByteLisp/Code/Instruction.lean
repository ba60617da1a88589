import ByteLisp.Bytes
import ByteLisp.Code.Error

/-!
# Instructions and their encoding

An instruction is an operation with a resolved operand. Decoding accepts every
encoding of an instruction; encoding chooses the shortest one.
-/

namespace ByteLisp

/-- An operation with its operand; the operand is zero where the operation has
none. -/
structure Instruction where
  opcode : Opcode
  operand : UInt16
deriving DecidableEq, Repr

namespace Instruction

/-- The operand that the given kind of byte code has at `offset`, unless the
code ends before it. -/
@[inline] def operandAt? (code : Bytes) (offset : Nat) : OperandKind → Option UInt16
  | .none => some 0
  | .packed operand => some operand.toUInt16
  | .byte => code[offset + 1]?.map UInt8.toUInt16
  | .word => do
    let low ← code[offset + 1]?
    let high ← code[offset + 2]?
    return Word.ofBytes low high

/-- Reads the instruction at `offset`, returning it with the offset just past
it. Every error names the offset at which the instruction starts. -/
@[inline] def decode (code : Bytes) (offset : Nat) : Except CodeError (Instruction × Nat) :=
  match code[offset]? with
  | none => .error (.unexpectedEnd offset)
  | some byte =>
    match ByteCode.lookup? byte with
    | none => .error (.invalidOpcode byte offset)
    | some meaning =>
      match operandAt? code offset meaning.operand with
      | none => .error (.unexpectedEnd offset)
      | some operand =>
        .ok (⟨meaning.opcode, operand⟩, offset + meaning.operand.instructionLength)

/-- Decoding by the meanings of the bytes, without their table. -/
theorem decode_eq (code : Bytes) (offset : Nat) :
    decode code offset = match code[offset]? with
      | none => .error (.unexpectedEnd offset)
      | some byte =>
        match ByteCode.ofByte? byte with
        | none => .error (.invalidOpcode byte offset)
        | some meaning =>
          match operandAt? code offset meaning.operand with
          | none => .error (.unexpectedEnd offset)
          | some operand =>
            .ok (⟨meaning.opcode, operand⟩, offset + meaning.operand.instructionLength) := by
  simp only [decode, ByteCode.lookup?_eq]

/-- A decoded instruction takes up at least one byte. -/
theorem lt_of_decode_eq_ok {code : Bytes} {offset next : Nat} {instruction : Instruction}
    (decoded : decode code offset = .ok (instruction, next)) : offset < next := by
  rw [decode_eq] at decoded
  split at decoded
  · simp at decoded
  · split at decoded
    · simp at decoded
    · rename_i meaning _
      split at decoded
      · simp at decoded
      · have positive := meaning.operand.instructionLength_pos
        simp only [Except.ok.injEq, Prod.mk.injEq] at decoded
        omega

/-- Nothing is decoded at or past the end of the code. -/
theorem lt_size_of_decode_eq_ok {code : Bytes} {offset next : Nat} {instruction : Instruction}
    (decoded : decode code offset = .ok (instruction, next)) : offset < code.size := by
  rw [decode_eq] at decoded
  split at decoded
  · simp at decoded
  · rename_i byte found
    exact (Array.getElem?_eq_some_iff.mp found).1

/-- A decoded instruction lies within the code. -/
theorem le_size_of_decode_eq_ok {code : Bytes} {offset next : Nat} {instruction : Instruction}
    (decoded : decode code offset = .ok (instruction, next)) : next ≤ code.size := by
  have inside := lt_size_of_decode_eq_ok decoded
  rw [decode_eq] at decoded
  split at decoded
  · cases decoded
  split at decoded
  · cases decoded
  rename_i meaning _
  split at decoded
  · cases decoded
  rename_i operand read
  cases decoded
  obtain ⟨opcode, kind⟩ := meaning
  cases kind with
  | none | packed => exact inside
  | byte =>
      simp only [operandAt?, Option.map_eq_some_iff] at read
      obtain ⟨_, found, _⟩ := read
      exact (Array.getElem?_eq_some_iff.mp found).1
  | word =>
      simp only [operandAt?, Option.bind_eq_bind, Option.bind_eq_some_iff] at read
      obtain ⟨_, _, _, found, _⟩ := read
      exact (Array.getElem?_eq_some_iff.mp found).1

/-- The operand does not fit any encoding of the operation. -/
def outOfRange (instruction : Instruction) : CodeError :=
  .operandOutOfRange instruction.opcode instruction.operand.toNat

/-- The shortest encoding of an instruction. -/
def encode (instruction : Instruction) : Except CodeError (List UInt8) :=
  let base := instruction.opcode.byte
  let operand := instruction.operand
  if instruction.opcode.isFamily then
    if operand.toNat < inlineLimit then
      .ok [base + operand.toUInt8]
    else if operand.toNat < 256 then
      .ok [base + UInt8.ofNat inlineLimit, operand.toUInt8]
    else
      .ok [base + UInt8.ofNat (inlineLimit + 1), Word.low operand, Word.high operand]
  else if instruction.opcode = .constant then
    if operand.toNat < 256 - constantBase then
      .ok [base + operand.toUInt8]
    else
      .ok [Opcode.constant2.byte, Word.low operand, Word.high operand]
  else
    match instruction.opcode.dedicatedKind with
    | .none | .packed _ => if operand = 0 then .ok [base] else .error instruction.outOfRange
    | .byte =>
      if operand.toNat < 256 then .ok [base, operand.toUInt8] else .error instruction.outOfRange
    | .word => .ok [base, Word.low operand, Word.high operand]

/-- The encodings of the instructions one after the other, or the first error. -/
def encodeAll (instructions : List Instruction) : Except CodeError Bytes := do
  let encodings ← instructions.mapM encode
  return encodings.flatten.toArray

/-- Whether listings show an operand for the operation. -/
def showsOperand (opcode : Opcode) : Bool :=
  opcode.isFamily || opcode == .constant ||
    match opcode.dedicatedKind with
    | .byte | .word => true
    | _ => false

/-- The instruction as it is shown in listings. -/
def text (instruction : Instruction) : String :=
  if showsOperand instruction.opcode then
    s!"{instruction.opcode.mnemonic} {instruction.operand.toNat}"
  else
    instruction.opcode.mnemonic

end Instruction

end ByteLisp
