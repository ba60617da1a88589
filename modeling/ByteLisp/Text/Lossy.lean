import ByteLisp.Bytes

/-!
# Text from arbitrary bytes

Bytes that are meant as text but are not well-formed UTF-8 are read with
replacement characters: each longest beginning of a character that is broken
off becomes one of them, and so does each byte that cannot start a character.
-/

namespace ByteLisp

namespace Lossy

/-- The character that stands for bytes that spell none. -/
def replacement : Char := '�'

/-- What the first byte of a character of several bytes says: how many bytes
follow, its share of the character code, and the range of the second byte. -/
structure Lead where
  following : Nat
  payload : Nat
  low : Nat := 0x80
  high : Nat := 0xBF

/-- The meaning of a byte that starts a character of several bytes. The ranges
exclude codes with a shorter form, surrogates and codes past the last one. -/
def lead? (byte : Nat) : Option Lead :=
  if byte < 0xC2 then none
  else if byte < 0xE0 then some ⟨1, byte - 0xC0, 0x80, 0xBF⟩
  else if byte = 0xE0 then some ⟨2, 0, 0xA0, 0xBF⟩
  else if byte = 0xED then some ⟨2, 0xD, 0x80, 0x9F⟩
  else if byte < 0xF0 then some ⟨2, byte - 0xE0, 0x80, 0xBF⟩
  else if byte = 0xF0 then some ⟨3, 0, 0x90, 0xBF⟩
  else if byte < 0xF4 then some ⟨3, byte - 0xF0, 0x80, 0xBF⟩
  else if byte = 0xF4 then some ⟨3, 4, 0x80, 0x8F⟩
  else none

/-- Reads the following bytes of a character. The result is the character and
the number of bytes that belong to it. -/
def follow (low high payload : Nat) : Nat → List UInt8 → Char × Nat
  | 0, _ => (Char.ofNat payload, 0)
  | _, [] => (replacement, 0)
  | count + 1, byte :: rest =>
    if low ≤ byte.toNat && byte.toNat ≤ high then
      let (c, used) := follow 0x80 0xBF (64 * payload + (byte.toNat - 0x80)) count rest
      (c, used + 1)
    else (replacement, 0)

/-- Reads one character whose first byte is given. The result is the character
and the number of further bytes that belong to it. -/
def character (byte : UInt8) (rest : List UInt8) : Char × Nat :=
  if byte.toNat < 0x80 then (Char.ofNat byte.toNat, 0)
  else match lead? byte.toNat with
    | some lead => follow lead.low lead.high lead.payload lead.following rest
    | none => (replacement, 0)

/-- Reads characters to the end of the bytes. -/
def characters (bytes : List UInt8) (done : String) : String :=
  match bytes with
  | [] => done
  | byte :: rest =>
    let (c, used) := character byte rest
    characters (rest.drop used) (done.push c)
termination_by bytes.length
decreasing_by
  simp only [List.length_drop, List.length_cons]
  omega

end Lossy

/-- The text that bytes spell, with replacement characters where they do not. -/
def Bytes.lossyText (bytes : Bytes) : String :=
  match bytes.text? with
  | some text => text
  | none => Lossy.characters bytes.toList ""

end ByteLisp
