/-!
# Stores

A store maps every address to a content. Only finitely many addresses have
been written; all others hold the default content. A new address is the first
one past all written ones.
-/

namespace ByteLisp

/-- Contents by address. -/
structure Store (α : Type) where
  cells : Array α := #[]
deriving DecidableEq, Repr

namespace Store

variable {α : Type}

/-- The number of addresses in use. -/
def size (store : Store α) : Nat :=
  store.cells.size

/-- The content at an address. -/
def read [Inhabited α] (store : Store α) (address : Nat) : α :=
  store.cells.getD address default

/-- Replaces the content at an address. -/
def write [Inhabited α] (store : Store α) (address : Nat) (content : α) : Store α :=
  if address < store.cells.size then
    ⟨store.cells.setIfInBounds address content⟩
  else
    ⟨(store.cells ++ Array.replicate (address - store.cells.size) default).push content⟩

/-- Replaces the content at an address by a change of it. The store lets go of the
content while it changes, so that the change can be made in place. -/
def modify [Inhabited α] (store : Store α) (address : Nat) (change : α → α) : Store α :=
  match store with
  | ⟨cells⟩ =>
    if address < cells.size then ⟨cells.modify address change⟩
    else write ⟨cells⟩ address (change default)

/-- Puts a content at a new address, which is the old size. -/
def push (store : Store α) (content : α) : Store α :=
  ⟨store.cells.push content⟩

@[simp] theorem size_push (store : Store α) (content : α) :
    (store.push content).size = store.size + 1 := by
  simp [push, size]

/-- Past the end of the store there is the default. -/
theorem read_of_size_le [Inhabited α] {store : Store α} {address : Nat}
    (past : store.size ≤ address) : store.read address = default := by
  simp [read, Array.getD_eq_getD_getElem?, Array.getElem?_eq_none past]

/-- What was written is read. -/
@[simp] theorem read_write_self [Inhabited α] (store : Store α) (address : Nat) (content : α) :
    (store.write address content).read address = content := by
  by_cases inside : address < store.cells.size
  · simp [write, read, inside]
  · have length : (store.cells ++
        Array.replicate (address - store.cells.size) default).size = address := by
      simp only [Array.size_append, Array.size_replicate]
      omega
    simp only [write, read, inside, if_false, Array.getD_eq_getD_getElem?]
    rw [Array.getElem?_push, length]
    simp

/-- Writing changes one place. -/
theorem read_write_of_ne [Inhabited α] (store : Store α) {address other : Nat} (content : α)
    (different : other ≠ address) :
    (store.write address content).read other = store.read other := by
  by_cases inside : address < store.cells.size
  · simp [write, read, inside, Array.getD_eq_getD_getElem?, different.symm]
  · have length : (store.cells ++
        Array.replicate (address - store.cells.size) default).size = address := by
      simp only [Array.size_append, Array.size_replicate]
      omega
    simp only [write, read, inside, if_false, Array.getD_eq_getD_getElem?]
    rw [Array.getElem?_push, length, if_neg different, Array.getElem?_append]
    by_cases old : other < store.cells.size
    · simp [old]
    · simp only [old, if_false, Array.getElem?_replicate]
      rw [Array.getElem?_eq_none (Nat.le_of_not_lt old)]
      split <;> rfl

/-- Reading after a write gives the written content at its address and the old
content everywhere else. -/
theorem read_write [Inhabited α] (store : Store α) (address other : Nat) (content : α) :
    (store.write address content).read other =
      if other = address then content else store.read other := by
  by_cases same : other = address
  · simp [same]
  · simp [same, read_write_of_ne store content same]

/-- Writing inside the store does not make it longer. -/
theorem size_write_of_lt [Inhabited α] {store : Store α} {address : Nat} (content : α)
    (inside : address < store.size) : (store.write address content).size = store.size := by
  simp only [size] at inside
  simp [write, size, inside]

/-- Writing what is there already changes nothing. -/
theorem write_read_self [Inhabited α] {store : Store α} {address : Nat}
    (inside : address < store.size) : store.write address (store.read address) = store := by
  obtain ⟨cells⟩ := store
  simp only [size] at inside
  simp only [write, read, inside, if_true, Array.getD_eq_getD_getElem?, Store.mk.injEq]
  apply Array.ext
  · simp
  · intro place _ within
    rw [Array.getElem_setIfInBounds within]
    split
    case isTrue same => simp [← same, inside]
    case isFalse => rfl

/-- Of two contents written to one address, the second one stays. -/
theorem write_write_self [Inhabited α] {store : Store α} {address : Nat} (first second : α)
    (inside : address < store.size) :
    (store.write address first).write address second = store.write address second := by
  simp only [size] at inside
  simp [write, inside]

/-- A change writes the changed content. -/
theorem modify_eq_write [Inhabited α] (store : Store α) (address : Nat) (change : α → α) :
    store.modify address change = store.write address (change (store.read address)) := by
  by_cases inside : address < store.cells.size
  · simp only [modify, write, inside, if_true, Store.mk.injEq]
    have content : store.read address = store.cells[address] := by
      simp [read, Array.getD_eq_getD_getElem?, inside]
    rw [content]
    apply Array.ext
    · simp
    · intro place _ _
      rw [Array.getElem_modify, Array.getElem_setIfInBounds]
      split
      case isTrue same =>
        subst same
        rfl
      case isFalse => rfl
  · simp [modify, read, inside, Array.getD]

/-- A new content is found at its address, and nothing else has changed. -/
theorem read_push [Inhabited α] (store : Store α) (content : α) (address : Nat) :
    (store.push content).read address =
      if address = store.size then content else store.read address := by
  simp only [push, read, size, Array.getD_eq_getD_getElem?, Array.getElem?_push]
  split <;> rfl

end Store

end ByteLisp
