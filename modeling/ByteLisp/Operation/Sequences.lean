import ByteLisp.Operation.Lists
import ByteLisp.Text.Casing

/-!
# Vectors, strings and sequences in general
-/

namespace ByteLisp

namespace Sequences

/-- The number of elements of a sequence, or of bytes of a string. -/
def length (heap : Heap) (sequence : Value) : Except Fault Value := do
  match sequence with
  | .cons _ => return .int (Int64.ofNat (← heap.elements sequence).size)
  | .vector address => return .int (Int64.ofNat (heap.vector address).size)
  | .string address => return .int (Int64.ofNat (heap.string address).size)
  | _ => if sequence.isNil then return .int 0 else throw (.wrongType .sequencep sequence)

/-- The position that `index` stands for in an array of the given size. -/
def position (array index : Value) (size : Nat) : Except Fault Nat := do
  let n ← index.expectInt
  if 0 ≤ n.toInt ∧ n.toInt.toNat < size then return n.toInt.toNat
  else throw (.argsOutOfRange array index)

/-- The element of a vector, or the byte of a string, at a position. -/
def aref (heap : Heap) (array index : Value) : Except Fault Value := do
  match array with
  | .vector address =>
    let items := heap.vector address
    return items.getD (← position array index items.size) .nil
  | .string address =>
    let bytes := heap.string address
    return .int (Int64.ofNat (bytes[← position array index bytes.size]?.getD 0).toNat)
  | _ => throw (.wrongType .arrayp array)

/-- Replaces the element of a vector at a position. -/
def aset (array index value : Value) : HeapM Value := do
  match array with
  | .vector address =>
    let place ← HeapM.look fun heap => position array index (heap.vector address).size
    HeapM.change (·.modifyVector address (·.setIfInBounds place value))
    return value
  | _ => throw (.wrongType .vectorp array)

/-- The element of a list, vector or string at a position. -/
def elt (heap : Heap) (sequence index : Value) : Except Fault Value :=
  if sequence.isList then Lists.nth heap index sequence else aref heap sequence index

/-- The bytes of a string, or of the name of a symbol. -/
def stringData (heap : Heap) (value : Value) : Except Fault PackedBytes :=
  match value with
  | .string address => .ok (heap.string address)
  | .symbol symbol => .ok (.ofText symbol.name)
  | .nil => .ok (.ofText "nil")
  | _ => .error (.wrongType .stringp value)

/-- The strings, or names of symbols, are equal. -/
def stringEq (heap : Heap) (a b : Value) : Except Fault Value := do
  let left ← stringData heap a
  let right ← stringData heap b
  return Value.ofBool (left.same right)

/-- The first string, or name of a symbol, comes before the second. -/
def stringLess (heap : Heap) (a b : Value) : Except Fault Value := do
  let left ← stringData heap a
  let right ← stringData heap b
  return Value.ofBool (left.before right)

/-- The character with the given code, unless it is no Unicode scalar value. -/
def character? (code : Int64) : Option Char :=
  let n := code.toInt.toNat
  if 0 ≤ code.toInt ∧ n.isValidChar then some (Char.ofNat n) else none

/-- The character that an element of a sequence stands for. -/
def characterOf (value : Value) : Except Fault Char :=
  match value.int?.bind character? with
  | some c => .ok c
  | none => .error (.wrongType .characterp value)

/-- The UTF-8 bytes of characters one after the other. -/
def charactersBytes (items : Array Value) : Except Fault PackedBytes := do
  let text ← items.foldlM (fun text item => return text.push (← characterOf item)) ""
  return .ofText text

/-- The bytes that a sequence adds to a concatenation. -/
def partBytes (heap : Heap) (part : Value) : Except Fault PackedBytes := do
  match part with
  | .string address => return heap.string address
  | .cons _ => charactersBytes (← heap.elements part)
  | .vector address => charactersBytes (heap.vector address)
  | _ => if part.isNil then return .empty else throw (.wrongType .sequencep part)

/-- A new string of the bytes of strings and of sequences of characters. -/
def concat (parts : List Value) : HeapM Value := do
  let pieces ← HeapM.look fun heap => parts.mapM (partBytes heap)
  HeapM.make (·.newString (.join pieces))

/-- The place between elements that a bound of a range stands for. A negative
bound counts from the end, and `nil` stands for the default. -/
def bound? (bound : Value) (size default : Nat) : Option Nat :=
  match bound with
  | .int n =>
    if n.toInt < 0 then
      if n.toInt.natAbs ≤ size then some (size - n.toInt.natAbs) else none
    else if n.toInt.toNat ≤ size then some n.toInt.toNat else none
  | _ => if bound.isNil then some default else none

/-- The start and end of a range. -/
def range? (start stop : Value) (size : Nat) : Option (Nat × Nat) := do
  let first ← bound? start size 0
  let last ← bound? stop size size
  if first ≤ last then some (first, last) else none

/-- A bound of a range is an integer or `nil`. -/
def checkBound (bound : Value) : Except Fault Unit :=
  if bound.isNil || bound.int?.isSome then .ok () else .error (.wrongType .integerp bound)

/-- The start and end of a range of `sequence`; a range outside of it is a
fault that shows a list of the two bounds. -/
def range (sequence start stop : Value) (size : Nat) : HeapM (Nat × Nat) := do
  match range? start stop size with
  | some limits => return limits
  | none =>
    let bounds ← HeapM.make (·.list [start, stop])
    throw (.argsOutOfRange sequence bounds)

/-- A new string or vector of the elements between two places. -/
def substring (sequence start stop : Value) : HeapM Value := do
  HeapM.look fun _ => checkBound start
  HeapM.look fun _ => checkBound stop
  match sequence with
  | .string address =>
    let bytes ← HeapM.look fun heap => .ok (heap.string address)
    let (first, last) ← range sequence start stop bytes.size
    HeapM.make (·.newString (bytes.extract first last))
  | .vector address =>
    let items ← HeapM.look fun heap => .ok (heap.vector address)
    let (first, last) ← range sequence start stop items.size
    HeapM.make (·.newVector (items.extract first last))
  | _ => throw (.wrongType .arrayp sequence)

/-- Changes the case of a character or of a string. A string that is not text
has only its ASCII letters changed. -/
def changeCase (letterCase : LetterCase) (value : Value) : HeapM Value := do
  match value with
  | .int n =>
    match character? n with
    | some c => return .int (Int64.ofNat (letterCase.firstOf c).toNat)
    | none => throw (.wrongType .charOrStringp value)
  | .string address =>
    HeapM.make fun heap =>
      let bytes := heap.string address
      heap.newString <| match bytes.text? with
        | some text => .ofText (letterCase.ofText text)
        | none => .ofBytes (bytes.toBytes.map letterCase.ofByte)
  | _ => throw (.wrongType .charOrStringp value)

/-- The value in upper case. -/
def upcase : Value → HeapM Value :=
  changeCase .upper

/-- The value in lower case. -/
def downcase : Value → HeapM Value :=
  changeCase .lower

end Sequences

end ByteLisp
