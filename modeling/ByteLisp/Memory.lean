import ByteLisp.Environment
import ByteLisp.Heap.Action

/-!
# Memory

The memory of the machine is the heap together with the environment. Actions
on it give a value or a fault, and leave a memory behind either way.
-/

namespace ByteLisp

/-- Objects and symbol cells. -/
structure Memory where
  heap : Heap := {}
  env : Environment := {}

/-- An operation that works on the memory. -/
abbrev Action := ExceptT Fault (StateM Memory)

namespace Action

variable {α : Type}

/-- An operation that works on the heap alone. -/
@[inline] def onHeap (operation : HeapM α) : Action α :=
  fun ⟨heap, env⟩ =>
    let (result, heap) := operation heap
    (result, ⟨heap, env⟩)

/-- A result that depends on nothing. -/
@[inline] def ofExcept (result : Except Fault α) : Action α :=
  fun memory => (result, memory)

/-- An operation that only looks at the heap. -/
@[inline] def look (question : Heap → Except Fault α) : Action α :=
  fun memory => (question memory.heap, memory)

/-- An operation that only looks at the environment. -/
@[inline] def ask (question : Environment → Except Fault α) : Action α :=
  fun memory => (question memory.env, memory)

/-- An operation that works on the environment alone. -/
@[inline] def onEnv (operation : EnvM α) : Action α :=
  fun ⟨heap, env⟩ =>
    let (result, env) := operation env
    (result, ⟨heap, env⟩)

end Action

end ByteLisp
