import ByteLisp.Code.Error
import ByteLisp.Datum.Text

/-!
# Saved functions

An image is a header of sixteen bytes and a payload: the magic bytes, the
version and the length of the payload, both as four bytes, and the function as
JSON. Bytes after the payload are not looked at.
-/

namespace ByteLisp

namespace Image

/-- The bytes with which every image starts. -/
def magic : Bytes := Bytes.ofText "LISPVMBC"

/-- The only version. -/
def version : Nat := 1

/-- The number of bytes before the payload. -/
def headerSize : Nat := 16

/-- An image with the given parts. -/
def frame (magic : Bytes) (version length : Nat) (payload : Bytes) : Bytes :=
  magic ++ Bytes.ofLong version ++ Bytes.ofLong length ++ payload

/-- The image of a function. -/
def write (literal : FunctionLiteral) : Except CodeError Bytes :=
  let payload := Bytes.ofText literal.jsonText
  if payload.size < UInt32.size then .ok (frame magic version payload.size payload)
  else .error .malformedImage

/-- The function of an image. -/
def read (image : Bytes) : Except CodeError FunctionLiteral :=
  if image.size < headerSize then .error (.unexpectedEnd image.size)
  else if image.extract 0 8 ≠ magic then .error .invalidMagic
  else if image.longAt 8 ≠ version then .error (.unsupportedVersion (image.longAt 8))
  else
    let length := image.longAt 12
    if image.size < headerSize + length then .error (.unexpectedEnd image.size)
    else
      match FunctionLiteral.parse? (image.extract headerSize (headerSize + length)) with
      | some literal => .ok literal
      | none => .error .malformedImage

end Image

end ByteLisp
