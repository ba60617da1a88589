import ByteLisp.Code.Instruction

/-!
# Assembling code

An assembler appends instructions to a code vector. A jump whose target is not
known yet is emitted with a zero target and pointed to its target later.
-/

namespace ByteLisp

/-- Code under construction. -/
structure Assembler where
  code : Bytes := #[]
deriving DecidableEq, Repr

namespace Assembler

/-- The offset at which the next instruction will stand. -/
def offset (assembler : Assembler) : Nat :=
  assembler.code.size

/-- Appends the shortest encoding of an instruction. -/
def emit (assembler : Assembler) (instruction : Instruction) : Except CodeError Assembler := do
  let encoding ← instruction.encode
  return ⟨assembler.code ++ encoding⟩

/-- Appends a jump without a target yet; the result holds its offset. -/
def emitJump (assembler : Assembler) (opcode : Opcode) : Except CodeError (Nat × Assembler) :=
  if opcode.isJump then
    .ok (assembler.offset, ⟨assembler.code ++ [opcode.byte, 0, 0]⟩)
  else
    .error (.notAJump assembler.offset)

/-- Whether the byte at the position starts the code of a jump. -/
def isJumpAt (assembler : Assembler) (position : Nat) : Bool :=
  match assembler.code[position]?.bind ByteCode.ofByte? with
  | some meaning => meaning.opcode.isJump
  | none => false

/-- Points the jump at `position` to `target`. A target beyond 16 bits is
reported by its low 32 bits. -/
def patchJump (assembler : Assembler) (position target : Nat) : Except CodeError Assembler :=
  if !assembler.isJumpAt position || assembler.code.size < position + 3 then
    .error (.notAJump position)
  else if target < 65536 then
    let word := UInt16.ofNat target
    .ok ⟨(assembler.code.setIfInBounds (position + 1) (Word.low word)).setIfInBounds
      (position + 2) (Word.high word)⟩
  else
    .error (.operandOutOfRange .goto (target % 4294967296))

/-- Points the jump at `position` to the current offset. -/
def patchHere (assembler : Assembler) (position : Nat) : Except CodeError Assembler :=
  assembler.patchJump position assembler.offset

/-- Appends a jump to a known target. The jump stays, with a zero target, when
the target does not fit. -/
def jumpTo (assembler : Assembler) (opcode : Opcode) (target : Nat) :
    Except CodeError Unit × Assembler :=
  match assembler.emitJump opcode with
  | .error error => (.error error, assembler)
  | .ok (position, emitted) =>
    match emitted.patchJump position target with
    | .error error => (.error error, emitted)
    | .ok patched => (.ok (), patched)

end Assembler

end ByteLisp
