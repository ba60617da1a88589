import ByteLisp.Code.Listing

/-!
# Encodings of instructions

`Instruction.Spells` says which bytes spell an instruction, by the table of byte codes
alone. Decoding reads exactly what is spelled, and encoding spells the instruction it is
given; a constant whose index does not fit its byte code is spelled as the operation with
a two-byte index. Encodings can therefore be put one after the other in any number, and
the listing of the result shows the instructions at the sums of their lengths. Of any other
code too, the listing shows what is spelled there, up to the place at which it stops.
-/

namespace ByteLisp

/-- A word below 256 is the byte that it holds. -/
theorem Word.toUInt16_toUInt8 {word : UInt16} (small : word.toNat < 256) :
    word.toUInt8.toUInt16 = word := by
  apply UInt16.toNat_inj.mp
  simp only [UInt8.toNat_toUInt16, UInt16.toNat_toUInt8]
  omega

/-! ## The table of byte codes -/

namespace Opcode

/-- The list of opcodes has all of them. -/
theorem mem_all (opcode : Opcode) : opcode ∈ all := by
  cases opcode <;> decide

/-- An operation is a family, the constants, or has a byte code of its own. -/
theorem kind_cases (opcode : Opcode) :
    opcode ∈ families ∨ opcode ∈ dedicated ∨ opcode = constant := by
  have known := mem_all opcode
  simpa [all, or_assoc] using known

end Opcode

namespace ByteCode

/-- The eight codes of a family. -/
theorem ofByte?_family : ∀ opcode ∈ Opcode.families, ∀ position < 8,
    ofByte? (opcode.byte + UInt8.ofNat position) = some (inFamily opcode position) := by
  decide +kernel

/-- The byte of an opcode outside the families stands for it alone. -/
theorem ofByte?_dedicated : ∀ opcode ∈ Opcode.dedicated,
    ofByte? opcode.byte = some ⟨opcode, opcode.dedicatedKind⟩ := by
  decide +kernel

/-- The last sixty-four bytes stand for constants, each with its index. -/
theorem ofByte?_constant : ∀ index < 64,
    ofByte? (Opcode.constant.byte + UInt8.ofNat index) =
      some ⟨.constant, .packed (UInt8.ofNat index)⟩ := by
  decide +kernel

end ByteCode

namespace Instruction

/-! ## What bytes spell -/

/-- The bytes spell the instruction: the first of them is a code of its operation, and the
others are the operand that the code asks for. -/
inductive Spells : List UInt8 → Instruction → Prop where
  | none {byte : UInt8} {opcode : Opcode}
      (meaning : ByteCode.ofByte? byte = some ⟨opcode, .none⟩) : Spells [byte] ⟨opcode, 0⟩
  | packed {byte operand : UInt8} {opcode : Opcode}
      (meaning : ByteCode.ofByte? byte = some ⟨opcode, .packed operand⟩) :
      Spells [byte] ⟨opcode, operand.toUInt16⟩
  | byte {byte operand : UInt8} {opcode : Opcode}
      (meaning : ByteCode.ofByte? byte = some ⟨opcode, .byte⟩) :
      Spells [byte, operand] ⟨opcode, operand.toUInt16⟩
  | word {byte low high : UInt8} {opcode : Opcode}
      (meaning : ByteCode.ofByte? byte = some ⟨opcode, .word⟩) :
      Spells [byte, low, high] ⟨opcode, Word.ofBytes low high⟩

/-- Decoding reads an instruction wherever it is spelled, whatever comes after it. -/
theorem decode_of_spells {bytes rest : List UInt8} {instruction : Instruction} {code : Bytes}
    {offset : Nat} (spells : Spells bytes instruction)
    (found : code.toList.drop offset = bytes ++ rest) :
    decode code offset = .ok (instruction, offset + bytes.length) := by
  have read : ∀ place, code[offset + place]? = (bytes ++ rest)[place]? := by
    intro place
    rw [← found, List.getElem?_drop, Array.getElem?_toList]
  have first := read 0
  have second := read 1
  have third := read 2
  cases spells with
  | none meaning | packed meaning =>
      simp only [Nat.add_zero, List.cons_append, List.getElem?_cons_zero] at first
      simp [decode_eq, first, meaning, operandAt?, OperandKind.instructionLength]
  | byte meaning =>
      simp only [Nat.add_zero, List.cons_append, List.getElem?_cons_zero,
        List.getElem?_cons_succ] at first second
      simp [decode_eq, first, second, meaning, operandAt?, OperandKind.instructionLength]
  | word meaning =>
      simp only [Nat.add_zero, List.cons_append, List.getElem?_cons_zero,
        List.getElem?_cons_succ] at first second third
      simp [decode_eq, first, second, third, meaning, operandAt?, OperandKind.instructionLength]

/-- What decoding reads is spelled where it was read. -/
theorem exists_spells_of_decode {code : Bytes} {offset next : Nat} {instruction : Instruction}
    (decoded : decode code offset = .ok (instruction, next)) :
    ∃ bytes rest, Spells bytes instruction ∧ code.toList.drop offset = bytes ++ rest ∧
      next = offset + bytes.length := by
  have onward : ∀ {place : Nat} {byte : UInt8}, code[place]? = some byte →
      code.toList.drop place = byte :: code.toList.drop (place + 1) := by
    intro place byte found
    obtain ⟨within, rfl⟩ := Array.getElem?_eq_some_iff.mp found
    exact List.drop_eq_getElem_cons (by simpa using within)
  rw [decode_eq] at decoded
  split at decoded
  · cases decoded
  next byte first =>
    split at decoded
    · cases decoded
    next meaning known =>
      obtain ⟨opcode, kind⟩ := meaning
      split at decoded
      · cases decoded
      next operand given =>
        simp only [Except.ok.injEq, Prod.mk.injEq] at decoded
        obtain ⟨rfl, rfl⟩ := decoded
        cases kind with
        | none =>
            cases given
            exact ⟨[byte], _, .none known, onward first, rfl⟩
        | packed operand =>
            cases given
            exact ⟨[byte], _, .packed known, onward first, rfl⟩
        | byte =>
            obtain ⟨low, second, rfl⟩ := Option.map_eq_some_iff.mp given
            refine ⟨[byte, low], code.toList.drop (offset + 2), .byte known, ?_, rfl⟩
            rw [onward first, onward second]
            rfl
        | word =>
            simp only [operandAt?, Option.bind_eq_bind, Option.bind_eq_some_iff, Option.pure_def,
              Option.some.injEq] at given
            obtain ⟨low, second, high, third, rfl⟩ := given
            refine ⟨[byte, low, high], code.toList.drop (offset + 3), .word known, ?_, rfl⟩
            rw [onward first, onward second, onward third]
            rfl

/-- What is read at an offset depends on the code from there on. -/
theorem decode_congr {code other : Bytes} {offset : Nat}
    (same : ∀ place ≥ offset, code[place]? = other[place]?) :
    decode code offset = decode other offset := by
  have operands : ∀ kind, operandAt? code offset kind = operandAt? other offset kind := by
    intro kind
    cases kind with
    | none | packed => rfl
    | byte | word =>
        simp only [operandAt?, same (offset + 1) (by omega), same (offset + 2) (by omega)]
  simp only [decode_eq, same offset (Nat.le_refl offset), operands]

/-- A constant whose index does not fit its byte code is shown with a two-byte index. -/
def shown (instruction : Instruction) : Instruction :=
  if instruction.opcode = .constant ∧ 64 ≤ instruction.operand.toNat then
    ⟨.constant2, instruction.operand⟩
  else instruction

/-- All instructions but constants are listed as they were written. -/
theorem shown_of_ne {instruction : Instruction} (other : instruction.opcode ≠ .constant) :
    instruction.shown = instruction := by
  simp [shown, other]

/-! ## What encoding writes -/

/-- The operand fits the encodings of the operation. -/
structure Encodable (instruction : Instruction) : Prop where
  /-- An operation without an operand has the operand zero. -/
  withoutOperand :
    ByteCode.ofByte? instruction.opcode.byte = some ⟨instruction.opcode, .none⟩ →
      instruction.operand = 0
  /-- Four operations have a single byte for their operand. -/
  oneByte :
    instruction.opcode ∈ [Opcode.listN, Opcode.concatN, Opcode.stackSet, Opcode.discardN] →
      instruction.operand.toNat ≤ 255

/-- Where an operation has a byte code of its own, the kind of its operand decides which
operands fit. -/
theorem encodable_dedicated_iff {opcode : Opcode} (own : opcode ∈ Opcode.dedicated)
    (operand : UInt16) :
    Encodable ⟨opcode, operand⟩ ↔
      (opcode.dedicatedKind = .none → operand = 0) ∧
        (opcode.dedicatedKind = .byte → operand.toNat < 256) := by
  have oneByte : ∀ opcode ∈ Opcode.dedicated,
      opcode ∈ [Opcode.listN, Opcode.concatN, Opcode.stackSet, Opcode.discardN] ↔
        opcode.dedicatedKind = .byte := by
    decide
  constructor
  · intro encodable
    refine ⟨fun kind => encodable.withoutOperand ?_, fun kind => ?_⟩
    · rw [ByteCode.ofByte?_dedicated opcode own, kind]
    · exact Nat.lt_succ_of_le (encodable.oneByte ((oneByte opcode own).mpr kind))
  · rintro ⟨zero, small⟩
    refine ⟨fun meaning => zero ?_, fun among => ?_⟩
    · rw [ByteCode.ofByte?_dedicated opcode own] at meaning
      simpa using meaning
    · exact Nat.le_of_lt_succ (small ((oneByte opcode own).mp among))

/-- A family and the constants fit every operand. -/
theorem encodable_of_not_dedicated {opcode : Opcode} (other : opcode ∉ Opcode.dedicated)
    (operand : UInt16) : Encodable ⟨opcode, operand⟩ := by
  have packed : ∀ opcode ∈ Opcode.all, opcode ∉ Opcode.dedicated →
      ByteCode.ofByte? opcode.byte = some ⟨opcode, .packed 0⟩ := by
    decide +kernel
  constructor
  · intro meaning
    rw [packed opcode (Opcode.mem_all opcode) other] at meaning
    simp at meaning
  · intro among
    have own : ∀ opcode ∈ [Opcode.listN, Opcode.concatN, Opcode.stackSet, Opcode.discardN],
        opcode ∈ Opcode.dedicated := by
      decide
    exact absurd (own opcode among) other

/-- What encoding comes to: bytes that spell the instruction as it is shown, or an error. -/
inductive Encoded (instruction : Instruction) : Except CodeError (List UInt8) → Prop where
  | written {bytes : List UInt8} (encodable : instruction.Encodable)
      (spells : Spells bytes instruction.shown) : Encoded instruction (.ok bytes)
  | refused (unfit : ¬ instruction.Encodable) : Encoded instruction (.error instruction.outOfRange)

/-- An instruction of a family is encoded in one of three forms, by the size of its operand. -/
theorem encoded_family {opcode : Opcode} (family : opcode ∈ Opcode.families) (operand : UInt16) :
    Encoded ⟨opcode, operand⟩ (encode ⟨opcode, operand⟩) := by
  have isFamily : opcode.isFamily = true := by simpa [Opcode.isFamily] using family
  have notDedicated : ∀ opcode ∈ Opcode.families, opcode ∉ Opcode.dedicated := by decide
  have notConstant : ∀ opcode ∈ Opcode.families, opcode ≠ .constant := by decide
  have encodable := encodable_of_not_dedicated (notDedicated opcode family) operand
  have asGiven : shown ⟨opcode, operand⟩ = ⟨opcode, operand⟩ :=
    shown_of_ne (notConstant opcode family)
  have meaning := ByteCode.ofByte?_family opcode family
  simp only [encode, isFamily, if_true]
  split
  case isTrue inCode =>
    have small : operand.toNat < 6 := inCode
    have code := meaning operand.toNat (by omega)
    rw [ByteCode.inFamily, if_pos inCode] at code
    have spells : Spells [_] ⟨opcode, operand.toUInt8.toUInt16⟩ := .packed code
    rw [Word.toUInt16_toUInt8 (by omega), ← asGiven] at spells
    exact .written encodable spells
  case isFalse =>
    split
    case isTrue inByte =>
      have spells : Spells [_, operand.toUInt8] _ := .byte (meaning 6 (by omega))
      rw [Word.toUInt16_toUInt8 inByte, ← asGiven] at spells
      exact .written encodable spells
    case isFalse =>
      have spells : Spells [_, Word.low operand, Word.high operand] _ :=
        .word (meaning 7 (by omega))
      rw [Word.ofBytes_low_high, ← asGiven] at spells
      exact .written encodable spells

/-- A constant is encoded with its index in the byte, or with two bytes behind it. -/
theorem encoded_constant (operand : UInt16) :
    Encoded ⟨.constant, operand⟩ (encode ⟨.constant, operand⟩) := by
  have notFamily : Opcode.constant.isFamily = false := rfl
  have encodable : Encodable ⟨.constant, operand⟩ :=
    encodable_of_not_dedicated (by decide) operand
  simp only [encode, notFamily, if_false, if_true, Bool.false_eq_true]
  split
  case isTrue inCode =>
    have small : operand.toNat < 64 := inCode
    have asGiven : shown ⟨.constant, operand⟩ = ⟨.constant, operand⟩ :=
      if_neg fun large => Nat.not_le.mpr small large.2
    have spells : Spells [_] ⟨.constant, operand.toUInt8.toUInt16⟩ :=
      .packed (ByteCode.ofByte?_constant operand.toNat small)
    rw [Word.toUInt16_toUInt8 (by omega), ← asGiven] at spells
    exact .written encodable spells
  case isFalse tooLarge =>
    have large : 64 ≤ operand.toNat := Nat.not_lt.mp tooLarge
    have widened : shown ⟨.constant, operand⟩ = ⟨.constant2, operand⟩ := if_pos ⟨rfl, large⟩
    have own : Opcode.constant2 ∈ Opcode.dedicated := by decide
    have spells : Spells [_, Word.low operand, Word.high operand] _ :=
      .word (ByteCode.ofByte?_dedicated .constant2 own)
    rw [Word.ofBytes_low_high, ← widened] at spells
    exact .written encodable spells

/-- Any other instruction is encoded with the operand that it takes, or refused. -/
theorem encoded_dedicated {opcode : Opcode} (own : opcode ∈ Opcode.dedicated)
    (operand : UInt16) : Encoded ⟨opcode, operand⟩ (encode ⟨opcode, operand⟩) := by
  have notFamily : ∀ opcode ∈ Opcode.dedicated, opcode.isFamily = false := by decide
  have notConstant : ∀ opcode ∈ Opcode.dedicated, opcode ≠ .constant := by decide
  have meaning := ByteCode.ofByte?_dedicated opcode own
  have fits := encodable_dedicated_iff own operand
  have asGiven : shown ⟨opcode, operand⟩ = ⟨opcode, operand⟩ :=
    shown_of_ne (notConstant opcode own)
  simp only [encode, notFamily opcode own, notConstant opcode own, if_false, Bool.false_eq_true]
  cases kind : opcode.dedicatedKind with
  | none =>
      rw [kind] at meaning fits
      by_cases zero : operand = 0
      · subst zero
        exact .written (fits.mpr (by simp)) (by rw [asGiven]; exact .none meaning)
      · simp only [zero, if_false]
        exact .refused fun encodable => zero ((fits.mp encodable).1 rfl)
  | packed inCode =>
      unfold Opcode.dedicatedKind at kind
      split at kind <;> cases kind
  | byte =>
      rw [kind] at meaning fits
      by_cases small : operand.toNat < 256
      · simp only [small, if_true]
        refine .written (fits.mpr (by simpa using small)) ?_
        have spells : Spells [_, operand.toUInt8] _ := .byte meaning
        rwa [Word.toUInt16_toUInt8 small, ← asGiven] at spells
      · simp only [small, if_false]
        exact .refused fun encodable => small ((fits.mp encodable).2 rfl)
  | word =>
      rw [kind] at meaning fits
      refine .written (fits.mpr (by simp)) ?_
      have spells : Spells [_, Word.low operand, Word.high operand] _ := .word meaning
      rwa [Word.ofBytes_low_high, ← asGiven] at spells

/-- What encoding comes to, for every instruction. -/
theorem encoded (instruction : Instruction) : Encoded instruction instruction.encode := by
  obtain family | own | isConstant := instruction.opcode.kind_cases
  · exact encoded_family family instruction.operand
  · exact encoded_dedicated own instruction.operand
  · obtain ⟨opcode, operand⟩ := instruction
    subst isConstant
    exact encoded_constant operand

/-- An instruction that is encoded can be encoded, and its bytes spell what is listed for it. -/
theorem encode_eq_ok {instruction : Instruction} {bytes : List UInt8}
    (written : instruction.encode = .ok bytes) :
    instruction.Encodable ∧ Spells bytes instruction.shown := by
  have outcome := instruction.encoded
  rw [written] at outcome
  cases outcome with
  | written encodable spells => exact ⟨encodable, spells⟩

/-! ## Sequences of instructions -/

/-- Instructions are encoded one behind the other, all or none. -/
theorem encodeAll_cons_eq_ok_iff {instruction : Instruction} {instructions : List Instruction}
    {code : Bytes} :
    encodeAll (instruction :: instructions) = .ok code ↔
      ∃ bytes rest, instruction.encode = .ok bytes ∧ encodeAll instructions = .ok rest ∧
        code = bytes.toArray ++ rest := by
  simp only [encodeAll, List.mapM_cons]
  cases instruction.encode with
  | error error => simp [bind, Except.bind]
  | ok bytes =>
      cases instructions.mapM encode with
      | error error => simp [bind, Except.bind]
      | ok encodings => simp [bind, Except.bind, pure, Except.pure, eq_comm]

/-- A sequence can be encoded when all its instructions can. -/
theorem exists_encodeAll_iff (instructions : List Instruction) :
    (∃ code, encodeAll instructions = .ok code) ↔
      ∀ instruction ∈ instructions, instruction.Encodable := by
  induction instructions with
  | nil => exact ⟨fun _ => List.forall_mem_nil _, fun _ => ⟨#[], rfl⟩⟩
  | cons instruction instructions ih =>
      rw [List.forall_mem_cons, ← ih]
      simp only [encodeAll_cons_eq_ok_iff]
      constructor
      · rintro ⟨_, bytes, rest, written, encodedRest, _⟩
        exact ⟨(encode_eq_ok written).1, rest, encodedRest⟩
      · rintro ⟨encodable, rest, encodedRest⟩
        have outcome := instruction.encoded
        cases written : instruction.encode with
        | ok bytes => exact ⟨_, bytes, rest, rfl, encodedRest, rfl⟩
        | error error =>
            rw [written] at outcome
            cases outcome with
            | refused unfit => exact absurd encodable unfit

/-- The number of bytes in the encoding of an instruction. -/
def encodedLength (instruction : Instruction) : Nat :=
  match instruction.encode with
  | .ok bytes => bytes.length
  | .error _ => 0

end Instruction

namespace Listing

/-- Instructions as a listing shows them, from `offset` on, each behind the encoding of the
one before. -/
def layout (offset : Nat) : List Instruction → List (Nat × Instruction)
  | [] => []
  | instruction :: instructions =>
    (offset, instruction.shown) :: layout (offset + instruction.encodedLength) instructions

/-- From `offset` on the bytes spell the instructions of the lines, one behind the other. -/
inductive Spelled : Nat → List UInt8 → List (Nat × Instruction) → Prop where
  | nil (offset : Nat) : Spelled offset [] []
  | cons {offset : Nat} {bytes rest : List UInt8} {instruction : Instruction}
      {lines : List (Nat × Instruction)} (spells : Instruction.Spells bytes instruction)
      (behind : Spelled (offset + bytes.length) rest lines) :
      Spelled offset (bytes ++ rest) ((offset, instruction) :: lines)

variable {code : Bytes} {offset : Nat}

/-- A listing goes on behind the instruction that it starts with. -/
theorem startingAt_of_ok {instruction : Instruction} {next : Nat}
    (decoded : Instruction.decode code offset = .ok (instruction, next)) :
    startingAt code offset =
      ⟨(offset, instruction) :: (startingAt code next).lines,
        (startingAt code next).stoppedBy⟩ := by
  rw [startingAt, if_pos (Instruction.lt_size_of_decode_eq_ok decoded)]
  split
  next error failed =>
    rw [decoded] at failed
    cases failed
  next read after succeeded =>
    rw [decoded] at succeeded
    cases succeeded
    rfl

/-- A listing stops where no instruction can be decoded. -/
theorem startingAt_of_error {error : CodeError} (inside : offset < code.size)
    (failed : Instruction.decode code offset = .error error) :
    startingAt code offset = ⟨[], some error⟩ := by
  rw [startingAt, if_pos inside]
  split
  next other failedAlike =>
    rw [failed] at failedAlike
    cases failedAlike
    rfl
  next read next decoded =>
    rw [failed] at decoded
    cases decoded

/-- Behind the end of the code there is nothing to list. -/
theorem startingAt_of_size_le (past : code.size ≤ offset) :
    startingAt code offset = ⟨[], none⟩ := by
  rw [startingAt, if_neg (Nat.not_lt_of_le past)]

/-- What is listed from an offset on depends on the code from there on. -/
theorem startingAt_congr {other : Bytes} (same : ∀ place ≥ offset, code[place]? = other[place]?) :
    startingAt code offset = startingAt other offset := by
  have past_iff : code.size ≤ offset ↔ other.size ≤ offset := by
    rw [← Array.getElem?_eq_none_iff, same offset (Nat.le_refl offset), Array.getElem?_eq_none_iff]
  have decode_eq := Instruction.decode_congr same
  fun_induction startingAt code offset with
  | case1 offset inside error failed =>
      exact (startingAt_of_error (by omega) (decode_eq ▸ failed)).symm
  | case2 offset inside instruction next decoded rest ih =>
      have later := Instruction.lt_of_decode_eq_ok decoded
      have sameLater : ∀ place ≥ next, code[place]? = other[place]? := fun place behind =>
        same place (by omega)
      have restAlike := ih sameLater
        (by rw [← Array.getElem?_eq_none_iff, sameLater next (Nat.le_refl next),
          Array.getElem?_eq_none_iff])
        (Instruction.decode_congr sameLater)
      rw [startingAt_of_ok (decode_eq ▸ decoded), ← restAlike]
  | case3 offset outside =>
      exact (startingAt_of_size_le (past_iff.mp (Nat.le_of_not_lt outside))).symm

/-- Where lines are spelled the listing shows these, and then what comes behind them. -/
theorem startingAt_of_spelled_append {bytes rest : List UInt8}
    {lines : List (Nat × Instruction)} (spelled : Spelled offset bytes lines)
    (found : code.toList.drop offset = bytes ++ rest) :
    startingAt code offset =
      ⟨lines ++ (startingAt code (offset + bytes.length)).lines,
        (startingAt code (offset + bytes.length)).stoppedBy⟩ := by
  induction spelled with
  | nil offset => rfl
  | @cons offset bytes behind instruction lines spells _ ih =>
      rw [List.append_assoc] at found
      have onward : code.toList.drop (offset + bytes.length) = behind ++ rest := by
        rw [← List.drop_drop, found, List.drop_left]
      rw [startingAt_of_ok (Instruction.decode_of_spells spells found), ih onward,
        List.length_append, Nat.add_assoc]
      rfl

/-- The code from an offset on spells the lines of the listing there, up to a place from which
nothing more is listed. -/
theorem exists_spelled (code : Bytes) (offset : Nat) :
    ∃ bytes rest, code.toList.drop offset = bytes ++ rest ∧
      Spelled offset bytes (startingAt code offset).lines ∧
      startingAt code (offset + bytes.length) = ⟨[], (startingAt code offset).stoppedBy⟩ := by
  fun_induction startingAt code offset with
  | case1 offset inside error failed =>
      exact ⟨[], _, rfl, .nil offset, startingAt_of_error inside failed⟩
  | case2 offset inside instruction next decoded rest ih =>
      obtain ⟨own, behind, spells, found, rfl⟩ := Instruction.exists_spells_of_decode decoded
      obtain ⟨bytes, further, foundBehind, spelled, stops⟩ := ih
      refine ⟨own ++ bytes, further, ?_, .cons spells spelled, ?_⟩
      · rw [← List.drop_drop, found, List.drop_left] at foundBehind
        rw [found, foundBehind, List.append_assoc]
      · rw [List.length_append, ← Nat.add_assoc]
        exact stops
  | case3 offset outside =>
      exact ⟨[], _, rfl, .nil offset, startingAt_of_size_le (Nat.le_of_not_lt outside)⟩

/-- From where the code ends in lines that are spelled, the listing shows these. -/
theorem startingAt_of_spelled {bytes : List UInt8} {lines : List (Nat × Instruction)}
    (spelled : Spelled offset bytes lines) (ends : code.toList.drop offset = bytes) :
    startingAt code offset = ⟨lines, none⟩ := by
  have past : code.size ≤ offset + bytes.length := by
    have lengths := congrArg List.length ends
    rw [List.length_drop, Array.length_toList] at lengths
    omega
  rw [← List.append_nil bytes] at ends
  rw [startingAt_of_spelled_append spelled ends, startingAt_of_size_le past, List.append_nil]

/-- Encoded instructions are spelled where they are laid out. -/
theorem spelled_layout {instructions : List Instruction} {code : Bytes}
    (encoded : Instruction.encodeAll instructions = .ok code) (offset : Nat) :
    Spelled offset code.toList (layout offset instructions) := by
  induction instructions generalizing offset code with
  | nil =>
      cases encoded
      exact .nil offset
  | cons instruction instructions ih =>
      obtain ⟨bytes, rest, written, encodedRest, rfl⟩ :=
        Instruction.encodeAll_cons_eq_ok_iff.mp encoded
      have length : instruction.encodedLength = bytes.length := by
        rw [Instruction.encodedLength, written]
      rw [layout, length, Array.toList_append]
      exact .cons (Instruction.encode_eq_ok written).2 (ih encodedRest _)

/-- From where the code ends in encoded instructions, the listing shows these. -/
theorem startingAt_of_encodeAll {instructions : List Instruction} {code rest : Bytes}
    {offset : Nat} (encoded : Instruction.encodeAll instructions = .ok rest)
    (ends : code.toList.drop offset = rest.toList) :
    startingAt code offset = ⟨layout offset instructions, none⟩ :=
  startingAt_of_spelled (spelled_layout encoded offset) ends

/-- A sequence of instructions can be encoded exactly when every operand fits, and the
listing of its code shows these instructions at the sums of the lengths of the encodings
before them. A constant with a large index is shown with a two-byte index. -/
theorem listing_of_encodeAll (instructions : List Instruction) :
    ((∃ code, Instruction.encodeAll instructions = .ok code) ↔
      ∀ instruction ∈ instructions, instruction.Encodable) ∧
    ∀ code, Instruction.encodeAll instructions = .ok code →
      ofCode code = ⟨layout 0 instructions, none⟩ := by
  refine ⟨Instruction.exists_encodeAll_iff instructions, fun code encoded => ?_⟩
  exact startingAt_of_encodeAll encoded (by simp)

/-- Operands on both sides of the places at which the form of an encoding changes. -/
theorem listing_of_boundary_operands :
    ofCode #[5, 6, 6, 38, 255, 39, 0, 1, 255, 129, 64, 0, 175, 255, 135] =
      ⟨[(0, ⟨.stackRef, 5⟩), (1, ⟨.stackRef, 6⟩), (3, ⟨.call, 255⟩), (5, ⟨.call, 256⟩),
        (8, ⟨.constant, 63⟩), (9, ⟨.constant2, 64⟩), (12, ⟨.listN, 255⟩), (14, ⟨.ret, 0⟩)],
        none⟩ :=
  (listing_of_encodeAll [⟨.stackRef, 5⟩, ⟨.stackRef, 6⟩, ⟨.call, 255⟩, ⟨.call, 256⟩,
    ⟨.constant, 63⟩, ⟨.constant, 64⟩, ⟨.listN, 255⟩, ⟨.ret, 0⟩]).2 _ rfl

end Listing

end ByteLisp
