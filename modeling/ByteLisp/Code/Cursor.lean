import ByteLisp.Code.Assembler

/-!
# Reading and writing in place

Code is read at a cursor, which moves on from instruction to instruction, and
written to a buffer, which grows by one encoding after the other. What cannot be
read leaves the cursor where it is, and what cannot be written leaves nothing in
the buffer.
-/

namespace ByteLisp

/-- An operation that moves a cursor over code. -/
abbrev CursorM := ExceptT CodeError (StateM Nat)

/-- An operation that adds to a buffer. -/
abbrev BufferM := ExceptT CodeError (StateM Bytes)

namespace Instruction

/-- Reads the instruction at the cursor and moves the cursor past it. -/
def read (code : Bytes) : CursorM Instruction :=
  fun cursor =>
    match decode code cursor with
    | .ok (instruction, next) => (.ok instruction, next)
    | .error error => (.error error, cursor)

/-- Adds the shortest encoding of the instruction to the buffer. -/
def write (instruction : Instruction) : BufferM Unit :=
  fun buffer =>
    match instruction.encode with
    | .ok encoding => (.ok (), buffer ++ encoding)
    | .error error => (.error error, buffer)

/-- Reading succeeds where decoding does, and moves the cursor behind the instruction. -/
theorem read_eq_ok_iff {code : Bytes} {cursor next : Nat} {instruction : Instruction} :
    read code cursor = (.ok instruction, next) ↔
      decode code cursor = .ok (instruction, next) := by
  constructor
  · intro succeeded
    unfold read at succeeded
    split at succeeded <;> cases succeeded
    assumption
  · intro decoded
    simp only [read, decoded]

/-- What cannot be read leaves the cursor where it is. -/
theorem read_eq_error_iff {code : Bytes} {cursor next : Nat} {error : CodeError} :
    read code cursor = (.error error, next) ↔
      decode code cursor = .error error ∧ next = cursor := by
  constructor
  · intro failed
    unfold read at failed
    split at failed <;> cases failed
    exact ⟨by assumption, rfl⟩
  · rintro ⟨undecoded, rfl⟩
    simp only [read, undecoded]

/-- What can be encoded is added to the buffer. -/
theorem write_of_encode {instruction : Instruction} {encoding : List UInt8}
    (encoded : instruction.encode = .ok encoding) (buffer : Bytes) :
    write instruction buffer = (.ok (), buffer ++ encoding) := by
  simp [write, encoded]

/-- Writing is what an assembler does with its code, which it keeps when an instruction is
refused. -/
theorem write_eq_emit (instruction : Instruction) (assembler : Assembler) :
    write instruction assembler.code = match assembler.emit instruction with
      | .ok longer => (.ok (), longer.code)
      | .error error => (.error error, assembler.code) := by
  unfold write Assembler.emit
  cases instruction.encode <;> rfl

/-- What cannot be written leaves nothing in the buffer. -/
theorem eq_of_write_eq_error {instruction : Instruction} {buffer after : Bytes}
    {error : CodeError} (refused : write instruction buffer = (.error error, after)) :
    after = buffer := by
  unfold write at refused
  split at refused
  · cases refused
  · cases refused
    rfl

end Instruction

end ByteLisp
