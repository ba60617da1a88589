import ByteLisp.Fault
import ByteLisp.Heap.Basic

/-!
# Operations on the heap

An operation on the heap gives a value or a fault. Either way it leaves a heap
behind: an operation that fails may have changed objects before it did.
-/

namespace ByteLisp

/-- An operation that works on the heap. -/
abbrev HeapM := ExceptT Fault (StateM Heap)

namespace HeapM

/-- An operation that only looks at the heap. -/
@[inline] def look {α : Type} (question : Heap → Except Fault α) : HeapM α :=
  fun heap => (question heap, heap)

/-- An operation that makes new objects and cannot fail. -/
@[inline] def make {α : Type} (creation : Heap → α × Heap) : HeapM α :=
  fun heap =>
    let (made, heap) := creation heap
    (.ok made, heap)

/-- An operation that changes objects and cannot fail. -/
@[inline] def change (mutation : Heap → Heap) : HeapM Unit :=
  fun heap => (.ok (), mutation heap)

end HeapM

namespace Value

/-- The value as an integer. -/
def expectInt (value : Value) : Except Fault Int64 :=
  match value.int? with
  | some n => .ok n
  | none => .error (.wrongType .integerp value)

/-- The value as a symbol. -/
def expectSymbol (value : Value) : Except Fault Symbol :=
  match value.symbol? with
  | some name => .ok name
  | none => .error (.wrongType .symbolp value)

end Value

end ByteLisp
