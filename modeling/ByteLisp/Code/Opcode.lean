/-!
# Operations of the machine

Six families of eight byte codes each carry a small operand inside the code.
The codes from 192 on push a constant by its index. Every other operation has
one byte code of its own.
-/

namespace ByteLisp

/-- The operations of the stack machine. The operations without a comment of
their own apply the Lisp function of the same name to the topmost values. -/
inductive Opcode where
  /-- Push a copy of the slot `operand` below the top. -/
  | stackRef
  /-- Push the value of the symbol in a constant slot. -/
  | varRef
  /-- Pop into the value of the symbol in a constant slot. -/
  | varSet
  /-- Pop and bind the symbol in a constant slot. -/
  | varBind
  /-- Call the value below the top `operand` arguments. -/
  | call
  /-- Undo the last `operand` bindings. -/
  | unbind
  | nth
  | symbolp
  | consp
  | stringp
  | listp
  | eq
  | memq
  | not
  | car
  | cdr
  | cons
  | list1
  | list2
  | list3
  | list4
  | length
  | aref
  | aset
  | symbolValue
  | symbolFunction
  | set
  | fset
  | get
  | substring
  | concat2
  | concat3
  | concat4
  | sub1
  | add1
  | numEq
  | greater
  | less
  | lessEq
  | greaterEq
  | diff
  | negate
  | plus
  | max
  | min
  | mult
  /-- Push the constant at a two-byte index. -/
  | constant2
  /-- Continue at an absolute offset. -/
  | goto
  /-- Pop; jump when nil. -/
  | gotoIfNil
  /-- Pop; jump when not nil. -/
  | gotoIfNotNil
  /-- Jump and keep the top when nil, otherwise pop. -/
  | gotoIfNilElsePop
  /-- Jump and keep the top when not nil, otherwise pop. -/
  | gotoIfNotNilElsePop
  /-- Pop the result and leave the activation. -/
  | ret
  /-- Pop and drop. -/
  | discard
  /-- Push a copy of the top. -/
  | dup
  | upcase
  | downcase
  | stringEq
  | stringLess
  | equal
  | nthcdr
  | elt
  | member
  | assq
  | nreverse
  | setcar
  | setcdr
  | carSafe
  | cdrSafe
  | nconc
  | quo
  | rem
  | numberp
  | integerp
  /-- Make a list of the top `operand` values. -/
  | listN
  /-- Concatenate the top `operand` values. -/
  | concatN
  /-- Pop into the slot that was `operand` below the top. -/
  | stackSet
  /-- The same with a two-byte operand. -/
  | stackSet2
  /-- Drop values; the high bit of the operand keeps the top. -/
  | discardN
  /-- Push the constant at an index. -/
  | constant
deriving DecidableEq, Repr

namespace Opcode

/-- The six families whose codes hold small operands. -/
def families : List Opcode :=
  [stackRef, varRef, varSet, varBind, call, unbind]

/-- Whether the operation is one of the six families. -/
def isFamily (opcode : Opcode) : Bool :=
  families.contains opcode

/-- The operations with one byte code of their own. -/
def dedicated : List Opcode :=
  [nth, symbolp, consp, stringp, listp, eq, memq, not, car, cdr, cons, list1, list2, list3,
   list4, length, aref, aset, symbolValue, symbolFunction, set, fset, get, substring, concat2,
   concat3, concat4, sub1, add1, numEq, greater, less, lessEq, greaterEq, diff, negate, plus,
   max, min, mult, constant2, goto, gotoIfNil, gotoIfNotNil, gotoIfNilElsePop,
   gotoIfNotNilElsePop, ret, discard, dup, upcase, downcase, stringEq, stringLess, equal, nthcdr,
   elt, member, assq, nreverse, setcar, setcdr, carSafe, cdrSafe, nconc, quo, rem, numberp,
   integerp, listN, concatN, stackSet, stackSet2, discardN]

/-- Every operation. -/
def all : List Opcode :=
  families ++ dedicated ++ [constant]

/-- The first byte code of the operation. -/
def byte : Opcode → UInt8
  | stackRef => 0
  | varRef => 8
  | varSet => 16
  | varBind => 24
  | call => 32
  | unbind => 40
  | nth => 56
  | symbolp => 57
  | consp => 58
  | stringp => 59
  | listp => 60
  | eq => 61
  | memq => 62
  | not => 63
  | car => 64
  | cdr => 65
  | cons => 66
  | list1 => 67
  | list2 => 68
  | list3 => 69
  | list4 => 70
  | length => 71
  | aref => 72
  | aset => 73
  | symbolValue => 74
  | symbolFunction => 75
  | set => 76
  | fset => 77
  | get => 78
  | substring => 79
  | concat2 => 80
  | concat3 => 81
  | concat4 => 82
  | sub1 => 83
  | add1 => 84
  | numEq => 85
  | greater => 86
  | less => 87
  | lessEq => 88
  | greaterEq => 89
  | diff => 90
  | negate => 91
  | plus => 92
  | max => 93
  | min => 94
  | mult => 95
  | constant2 => 129
  | goto => 130
  | gotoIfNil => 131
  | gotoIfNotNil => 132
  | gotoIfNilElsePop => 133
  | gotoIfNotNilElsePop => 134
  | ret => 135
  | discard => 136
  | dup => 137
  | upcase => 150
  | downcase => 151
  | stringEq => 152
  | stringLess => 153
  | equal => 154
  | nthcdr => 155
  | elt => 156
  | member => 157
  | assq => 158
  | nreverse => 159
  | setcar => 160
  | setcdr => 161
  | carSafe => 162
  | cdrSafe => 163
  | nconc => 164
  | quo => 165
  | rem => 166
  | numberp => 167
  | integerp => 168
  | listN => 175
  | concatN => 176
  | stackSet => 178
  | stackSet2 => 179
  | discardN => 182
  | constant => 192

/-- The name of the operation in listings. -/
def mnemonic : Opcode → String
  | stackRef => "stack-ref"
  | varRef => "varref"
  | varSet => "varset"
  | varBind => "varbind"
  | call => "call"
  | unbind => "unbind"
  | nth => "nth"
  | symbolp => "symbolp"
  | consp => "consp"
  | stringp => "stringp"
  | listp => "listp"
  | eq => "eq"
  | memq => "memq"
  | not => "not"
  | car => "car"
  | cdr => "cdr"
  | cons => "cons"
  | list1 => "list1"
  | list2 => "list2"
  | list3 => "list3"
  | list4 => "list4"
  | length => "length"
  | aref => "aref"
  | aset => "aset"
  | symbolValue => "symbol-value"
  | symbolFunction => "symbol-function"
  | set => "set"
  | fset => "fset"
  | get => "get"
  | substring => "substring"
  | concat2 => "concat2"
  | concat3 => "concat3"
  | concat4 => "concat4"
  | sub1 => "sub1"
  | add1 => "add1"
  | numEq => "eqlsign"
  | greater => "gtr"
  | less => "lss"
  | lessEq => "leq"
  | greaterEq => "geq"
  | diff => "diff"
  | negate => "negate"
  | plus => "plus"
  | max => "max"
  | min => "min"
  | mult => "mult"
  | constant2 => "constant2"
  | goto => "goto"
  | gotoIfNil => "goto-if-nil"
  | gotoIfNotNil => "goto-if-not-nil"
  | gotoIfNilElsePop => "goto-if-nil-else-pop"
  | gotoIfNotNilElsePop => "goto-if-not-nil-else-pop"
  | ret => "return"
  | discard => "discard"
  | dup => "dup"
  | upcase => "upcase"
  | downcase => "downcase"
  | stringEq => "string="
  | stringLess => "string<"
  | equal => "equal"
  | nthcdr => "nthcdr"
  | elt => "elt"
  | member => "member"
  | assq => "assq"
  | nreverse => "nreverse"
  | setcar => "setcar"
  | setcdr => "setcdr"
  | carSafe => "car-safe"
  | cdrSafe => "cdr-safe"
  | nconc => "nconc"
  | quo => "quo"
  | rem => "rem"
  | numberp => "numberp"
  | integerp => "integerp"
  | listN => "listN"
  | concatN => "concatN"
  | stackSet => "stack-set"
  | stackSet2 => "stack-set2"
  | discardN => "discardN"
  | constant => "constant"

/-- The operation with the given name. -/
def ofMnemonic? (name : String) : Option Opcode :=
  all.find? (·.mnemonic == name)

/-- Whether the operation may transfer control to its operand. -/
def isJump : Opcode → Bool
  | goto | gotoIfNil | gotoIfNotNil | gotoIfNilElsePop | gotoIfNotNilElsePop => true
  | _ => false

/-- The change in operand stack depth when the operation falls through. A
conditional jump that keeps the top value when taken reports the other case. -/
def stackEffect (opcode : Opcode) (operand : UInt16) : Int :=
  match opcode with
  | stackRef | varRef | constant | constant2 | dup => 1
  | varSet | varBind => -1
  | call => -operand.toNat
  | unbind | goto => 0
  | listN | concatN => 1 - operand.toNat
  | discardN => -(operand.toNat % 128 : Nat)
  | symbolp | consp | stringp | listp | not | car | cdr | list1 | length | symbolValue
  | symbolFunction | sub1 | add1 | negate | upcase | downcase | nreverse | carSafe | cdrSafe
  | numberp | integerp => 0
  | list3 | concat3 | aset | substring => -2
  | list4 | concat4 => -3
  | nth | eq | memq | cons | list2 | aref | set | fset | get | concat2 | numEq | greater | less
  | lessEq | greaterEq | diff | plus | max | min | mult | gotoIfNil | gotoIfNotNil
  | gotoIfNilElsePop | gotoIfNotNilElsePop | ret | discard | stringEq | stringLess | equal
  | nthcdr | elt | member | assq | setcar | setcdr | nconc | quo | rem | stackSet
  | stackSet2 => -1

end Opcode

/-- Where the operand of a byte code stands. -/
inductive OperandKind where
  /-- There is no operand; it counts as zero. -/
  | none
  /-- The operand is part of the code. -/
  | packed (operand : UInt8)
  /-- The operand is the byte after the code. -/
  | byte
  /-- The operand is the little-endian word after the code. -/
  | word
deriving DecidableEq, Repr

/-- The length in bytes of an instruction with such an operand. -/
def OperandKind.instructionLength : OperandKind → Nat
  | none | packed _ => 1
  | byte => 2
  | word => 3

/-- Every instruction has at least the byte of its opcode. -/
theorem OperandKind.instructionLength_pos (kind : OperandKind) : 0 < kind.instructionLength := by
  cases kind <;> simp [instructionLength]

namespace Opcode

/-- How a dedicated operation carries its operand. -/
def dedicatedKind : Opcode → OperandKind
  | constant2 | goto | gotoIfNil | gotoIfNotNil | gotoIfNilElsePop | gotoIfNotNilElsePop
  | stackSet2 => .word
  | listN | concatN | stackSet | discardN => .byte
  | _ => .none

end Opcode

/-- The number of small operands that a family holds inside its codes. -/
def inlineLimit : Nat := 6

/-- The first of the codes that push a constant. -/
def constantBase : Nat := 192

/-- What a byte means at the start of an instruction. -/
structure ByteCode where
  opcode : Opcode
  operand : OperandKind
deriving DecidableEq, Repr

namespace ByteCode

/-- The meaning of the code at `position` within the eight codes of a family. -/
def inFamily (opcode : Opcode) (position : Nat) : ByteCode :=
  if position < inlineLimit then ⟨opcode, .packed (UInt8.ofNat position)⟩
  else if position = inlineLimit then ⟨opcode, .byte⟩
  else ⟨opcode, .word⟩

/-- The meaning of a byte, for the bytes that are assigned. -/
def ofByte? (byte : UInt8) : Option ByteCode :=
  if byte.toNat < 48 then
    Opcode.families[byte.toNat / 8]?.map (inFamily · (byte.toNat % 8))
  else if constantBase ≤ byte.toNat then
    some ⟨.constant, .packed (UInt8.ofNat (byte.toNat - constantBase))⟩
  else
    (Opcode.dedicated.find? (·.byte == byte)).map fun opcode => ⟨opcode, opcode.dedicatedKind⟩

/-- The meanings of all bytes, in order. -/
def table : Array (Option ByteCode) :=
  Array.ofFn fun byte : Fin 256 => ofByte? (UInt8.ofNat byte)

/-- The meaning of a byte, looked up in the table. -/
@[inline] def lookup? (byte : UInt8) : Option ByteCode :=
  table.getD byte.toNat none

/-- The table gives every byte its meaning. -/
@[simp] theorem lookup?_eq (byte : UInt8) : lookup? byte = ofByte? byte := by
  have bound : byte.toNat < 256 := byte.toNat_lt
  simp [lookup?, table, Array.getD_eq_getD_getElem?, bound]

/-- The first code of the family that the byte code belongs to. -/
def familyBase? (code : ByteCode) : Option UInt8 :=
  if code.opcode.isFamily then some code.opcode.byte else none

end ByteCode

end ByteLisp
