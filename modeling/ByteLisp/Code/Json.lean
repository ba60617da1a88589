import ByteLisp.Code.Descriptor
import ByteLisp.Code.Instruction
import ByteLisp.Json.Decode

/-!
# Code in JSON

Instructions, their parts and argument descriptors as JSON values.
-/

namespace ByteLisp

namespace Opcode

/-- The name of the operation in JSON. -/
def tag : Opcode → String
  | stackRef => "StackRef"
  | varRef => "VarRef"
  | varSet => "VarSet"
  | varBind => "VarBind"
  | call => "Call"
  | unbind => "Unbind"
  | nth => "Nth"
  | symbolp => "Symbolp"
  | consp => "Consp"
  | stringp => "Stringp"
  | listp => "Listp"
  | eq => "Eq"
  | memq => "Memq"
  | not => "Not"
  | car => "Car"
  | cdr => "Cdr"
  | cons => "Cons"
  | list1 => "List1"
  | list2 => "List2"
  | list3 => "List3"
  | list4 => "List4"
  | length => "Length"
  | aref => "Aref"
  | aset => "Aset"
  | symbolValue => "SymbolValue"
  | symbolFunction => "SymbolFunction"
  | set => "Set"
  | fset => "Fset"
  | get => "Get"
  | substring => "Substring"
  | concat2 => "Concat2"
  | concat3 => "Concat3"
  | concat4 => "Concat4"
  | sub1 => "Sub1"
  | add1 => "Add1"
  | numEq => "Eqlsign"
  | greater => "Gtr"
  | less => "Lss"
  | lessEq => "Leq"
  | greaterEq => "Geq"
  | diff => "Diff"
  | negate => "Negate"
  | plus => "Plus"
  | max => "Max"
  | min => "Min"
  | mult => "Mult"
  | constant2 => "Constant2"
  | goto => "Goto"
  | gotoIfNil => "GotoIfNil"
  | gotoIfNotNil => "GotoIfNonNil"
  | gotoIfNilElsePop => "GotoIfNilElsePop"
  | gotoIfNotNilElsePop => "GotoIfNonNilElsePop"
  | ret => "Return"
  | discard => "Discard"
  | dup => "Dup"
  | upcase => "Upcase"
  | downcase => "Downcase"
  | stringEq => "StringEqlsign"
  | stringLess => "StringLss"
  | equal => "Equal"
  | nthcdr => "Nthcdr"
  | elt => "Elt"
  | member => "Member"
  | assq => "Assq"
  | nreverse => "Nreverse"
  | setcar => "Setcar"
  | setcdr => "Setcdr"
  | carSafe => "CarSafe"
  | cdrSafe => "CdrSafe"
  | nconc => "Nconc"
  | quo => "Quo"
  | rem => "Rem"
  | numberp => "Numberp"
  | integerp => "Integerp"
  | listN => "ListN"
  | concatN => "ConcatN"
  | stackSet => "StackSet"
  | stackSet2 => "StackSet2"
  | discardN => "DiscardN"
  | constant => "Constant"

/-- The operation with a name. -/
def ofTag? (tag : String) : Option Opcode :=
  all.find? fun opcode => opcode.tag = tag

/-- The JSON form of an opcode: its name. -/
def toJson (opcode : Opcode) : Json :=
  .ofText opcode.tag

/-- The opcode of a JSON value. -/
def ofJson? (value : Json) : Option Opcode :=
  value.bareChoice?.bind ofTag?

end Opcode

namespace OperandKind

/-- The JSON form of a kind of operand. -/
def toJson : OperandKind → Json
  | none => .ofText "None"
  | packed operand => .ofChoice "Packed" (.ofNat operand.toNat)
  | byte => .ofText "Byte"
  | word => .ofText "Word"

/-- The kind of operand of a JSON value. -/
def ofJson? (value : Json) : Option OperandKind :=
  match value.choice? with
  | some ("Packed", some content) => content.byte?.map packed
  | _ =>
    match value.bareChoice? with
    | some "None" => some none
    | some "Byte" => some byte
    | some "Word" => some word
    | _ => Option.none

end OperandKind

namespace Instruction

/-- The JSON form of an instruction. -/
def toJson (instruction : Instruction) : Json :=
  .ofMembers [("opcode", instruction.opcode.toJson), ("operand", .ofNat instruction.operand.toNat)]

/-- The instruction of a JSON value. -/
def ofJson? (value : Json) : Option Instruction :=
  match value.fields? ["opcode", "operand"] with
  | some [some opcode, some operand] => do
    return ⟨← Opcode.ofJson? opcode, ← operand.word?⟩
  | _ => none

end Instruction

namespace Descriptor

/-- The JSON form of a descriptor: its three fields. -/
def toJson (descriptor : Descriptor) : Json :=
  .ofMembers [("required", .ofNat descriptor.required.toNat),
    ("total", .ofNat descriptor.total.toNat), ("rest", .bool descriptor.rest)]

/-- The descriptor with the fields of a record. The fields are not checked
against each other. -/
def ofJson? (value : Json) : Option Descriptor :=
  match value.fields? ["required", "total", "rest"] with
  | some [some required, some total, some rest] => do
    return ⟨← required.byte?, ← total.word?, ← rest.bool?⟩
  | _ => none

end Descriptor

end ByteLisp
