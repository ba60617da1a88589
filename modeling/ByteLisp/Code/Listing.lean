import ByteLisp.Code.Instruction

/-!
# Code listings

A listing walks code from its start, instruction by instruction, and stops at
the end of the code or at the first place that does not decode.
-/

namespace ByteLisp

/-- The instructions of a code vector with their offsets, and the error at
which the walk stopped short of the end. -/
structure Listing where
  lines : List (Nat × Instruction)
  stoppedBy : Option CodeError
deriving DecidableEq, Repr

namespace Listing

/-- Lists the instructions from `offset` on. -/
def startingAt (code : Bytes) (offset : Nat) : Listing :=
  if offset < code.size then
    match _decoded : Instruction.decode code offset with
    | .error error => ⟨[], some error⟩
    | .ok (instruction, next) =>
      let rest := startingAt code next
      ⟨(offset, instruction) :: rest.lines, rest.stoppedBy⟩
  else
    ⟨[], none⟩
termination_by code.size - offset
decreasing_by
  have advanced := Instruction.lt_of_decode_eq_ok _decoded
  omega

/-- Lists the instructions of a code vector. -/
def ofCode (code : Bytes) : Listing :=
  startingAt code 0

end Listing

end ByteLisp
