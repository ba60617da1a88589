import ByteLisp.Heap.Chain
import ByteLisp.Heap.Equal

/-!
# List operations
-/

namespace ByteLisp

namespace Lists

/-- The first field of a cons; `nil` for anything else. -/
def carSafe (heap : Heap) : Value → Value
  | .cons cell => (heap.pair cell).car
  | _ => .nil

/-- The second field of a cons; `nil` for anything else. -/
def cdrSafe (heap : Heap) : Value → Value
  | .cons cell => (heap.pair cell).cdr
  | _ => .nil

/-- The rest of a list without its first elements. A negative count counts as
zero. -/
def nthcdr (heap : Heap) (count list : Value) : Except Fault Value := do
  let n ← count.expectInt
  heap.dropFrom list n.toInt.toNat (.start list) list

/-- The element of a list at a position. -/
def nth (heap : Heap) (position list : Value) : Except Fault Value := do
  heap.car (← nthcdr heap position list)

/-- The rest of a list from the first identical element on. -/
def memq (heap : Heap) (element list : Value) : Except Fault Value :=
  heap.find list fun item tail => if item.isEq element then some tail else none

/-- The rest of a list from the first equal element on. -/
def member (heap : Heap) (element list : Value) : Except Fault Value :=
  heap.find list fun item tail => if heap.equal item element then some tail else none

/-- The first element of a list that is a cons with the given key as its first
field. -/
def assq (heap : Heap) (key list : Value) : Except Fault Value :=
  heap.find list fun item _ =>
    match item with
    | .cons cell => if (heap.pair cell).car.isEq key then some item else none
    | _ => none

/-- Reverses the elements of a vector or the links of a list in place. A list
that does not end in `nil` is a fault, found only after its links have been
turned around. -/
def nreverse (sequence : Value) : HeapM Value :=
  fun heap =>
    match sequence with
    | .vector address => (.ok sequence, heap.modifyVector address Array.reverse)
    | _ =>
      let (tail, reversed, heap) := heap.relink (2 * heap.chainBound) sequence .nil
      (if tail.isNil then .ok reversed else .error (.wrongType .listp sequence), heap)

/-- A new vector or list with the elements in the other order. -/
def reverse (sequence : Value) : HeapM Value := do
  match sequence with
  | .vector address => HeapM.make fun heap => heap.newVector (heap.vector address).reverse
  | _ =>
    let items ← HeapM.look (·.elements sequence)
    HeapM.make (·.list items.toList.reverse)

/-- Links the last cons of the first list to the second value. -/
def nconc (first second : Value) : HeapM Value := do
  match first with
  | .cons cell =>
    match (← get).last? cell with
    | some last =>
      HeapM.change (·.setCdr last second)
      return first
    | none => throw (.wrongType .listp first)
  | _ => if first.isNil then return second else throw (.wrongType .consp first)

/-- Replaces the first field of a cons. -/
def setcar (cell value : Value) : HeapM Value := do
  match cell with
  | .cons address =>
    HeapM.change (·.setCar address value)
    return value
  | _ => throw (.wrongType .consp cell)

/-- Replaces the second field of a cons. -/
def setcdr (cell value : Value) : HeapM Value := do
  match cell with
  | .cons address =>
    HeapM.change (·.setCdr address value)
    return value
  | _ => throw (.wrongType .consp cell)

end Lists

end ByteLisp
