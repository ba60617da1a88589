/-!
# Byte sequences

Code vectors and saved images are sequences of bytes. Wide
numbers inside them are little-endian: the least significant byte comes first.
-/

namespace ByteLisp

/-- A finite sequence of bytes. -/
abbrev Bytes := Array UInt8

namespace Bytes

/-- The UTF-8 bytes of a text. -/
def ofText (text : String) : Bytes :=
  text.toUTF8.data

/-- The text these bytes spell, when they are well-formed UTF-8. -/
def text? (bytes : Bytes) : Option String :=
  String.fromUTF8? ⟨bytes⟩

end Bytes

namespace Word

/-- The low byte of a 16-bit word. -/
def low (word : UInt16) : UInt8 :=
  UInt8.ofNat (word.toNat % 256)

/-- The high byte of a 16-bit word. -/
def high (word : UInt16) : UInt8 :=
  UInt8.ofNat (word.toNat / 256)

/-- The 16-bit word with the given low and high bytes. -/
def ofBytes (low high : UInt8) : UInt16 :=
  UInt16.ofNat (low.toNat + 256 * high.toNat)

/-- Taking a word apart and putting it together again changes nothing. -/
@[simp] theorem ofBytes_low_high (word : UInt16) : ofBytes (low word) (high word) = word := by
  have bound := word.toNat_lt
  apply UInt16.toNat_inj.mp
  simp only [ofBytes, low, high, UInt8.toNat_ofNat', UInt16.toNat_ofNat']
  omega

@[simp] theorem low_ofBytes (first second : UInt8) : low (ofBytes first second) = first := by
  have firstBound := first.toNat_lt
  have secondBound := second.toNat_lt
  apply UInt8.toNat_inj.mp
  simp only [ofBytes, low, UInt8.toNat_ofNat', UInt16.toNat_ofNat']
  omega

@[simp] theorem high_ofBytes (first second : UInt8) : high (ofBytes first second) = second := by
  have firstBound := first.toNat_lt
  have secondBound := second.toNat_lt
  apply UInt8.toNat_inj.mp
  simp only [ofBytes, high, UInt8.toNat_ofNat', UInt16.toNat_ofNat']
  omega

end Word

namespace Bytes

/-- The four bytes of a number below `2 ^ 32`, least significant first. -/
def ofLong (number : Nat) : Bytes :=
  #[UInt8.ofNat number, UInt8.ofNat (number / 256), UInt8.ofNat (number / 65536),
    UInt8.ofNat (number / 16777216)]

/-- The number whose little-endian bytes start at `offset`; bytes past the end
count as zero. -/
def longAt (bytes : Bytes) (offset : Nat) : Nat :=
  (bytes.getD offset 0).toNat + 256 * (bytes.getD (offset + 1) 0).toNat +
    65536 * (bytes.getD (offset + 2) 0).toNat + 16777216 * (bytes.getD (offset + 3) 0).toNat

end Bytes

end ByteLisp
