import ByteLisp.Code.Opcode

/-!
# Why code cannot be read, written or loaded
-/

namespace ByteLisp

/-- The causes for which code, an argument descriptor or a saved image is
refused. Offsets are counted in bytes from the start. -/
inductive CodeError where
  /-- An image does not start with the magic bytes. -/
  | invalidMagic
  /-- An image has a version other than the supported one. -/
  | unsupportedVersion (version : Nat)
  /-- The byte at the offset is not assigned to an operation. -/
  | invalidOpcode (byte : UInt8) (offset : Nat)
  /-- The bytes end inside the instruction or image part at the offset. -/
  | unexpectedEnd (offset : Nat)
  /-- The operand does not fit the encoding of the operation. -/
  | operandOutOfRange (opcode : Opcode) (operand : Nat)
  /-- The integer does not describe arguments. -/
  | invalidDescriptor (raw : Int64)
  /-- There is no jump instruction at the offset. -/
  | notAJump (offset : Nat)
  /-- The payload of an image does not hold a function. -/
  | malformedImage
deriving DecidableEq, Repr

namespace CodeError

/-- Lower-case hexadecimal digits of a number. -/
def hexDigits (number : Nat) : String :=
  String.ofList (Nat.toDigits 16 number)

/-- The text of the error. A descriptor is shown as the 64-bit pattern of the
refused integer. -/
def message : CodeError → String
  | invalidMagic => "Invalid magic bytes"
  | unsupportedVersion version => s!"Unsupported version: {version}"
  | invalidOpcode byte offset => s!"Invalid opcode {byte.toNat} at offset {offset}"
  | unexpectedEnd offset => s!"Unexpected end of bytecode at offset {offset}"
  | operandOutOfRange opcode operand =>
    s!"Operand {operand} out of range for {opcode.mnemonic}"
  | invalidDescriptor raw => s!"Invalid argument descriptor 0x{hexDigits raw.toUInt64.toNat}"
  | notAJump offset => s!"No jump instruction at offset {offset}"
  | malformedImage => "Malformed image"

end CodeError

end ByteLisp
