import ByteLisp.Heap.Store
import ByteLisp.PackedBytes
import ByteLisp.Parameters
import ByteLisp.Value.Basic

/-!
# The heap

The heap holds the objects that values refer to: conses and vectors, whose
contents can be replaced, and strings and functions, whose contents stay as
they were made.
-/

namespace ByteLisp

/-- The contents of a cons. -/
structure Pair where
  car : Value
  cdr : Value
deriving DecidableEq, Repr

instance : Inhabited Pair := ⟨⟨.nil, .nil⟩⟩

/-- The documentation of a function: its text, or the place where it is kept. -/
inductive Documentation where
  | text (text : String)
  | external (file : String) (offset : Int64)
deriving DecidableEq, Repr

/-- A compiled function. -/
structure Function where
  parameters : Parameters
  code : Bytes
  constants : Array Value
  /-- The number of operand stack slots that the code may use. -/
  maxDepth : Nat
  documentation : Option Documentation := none
  /-- A form for the caller's use; the machine never looks at it. -/
  interactive : Option Value := none
deriving DecidableEq, Repr

instance : Inhabited Function := ⟨⟨.lexical ⟨0, 0, false⟩, #[], #[], 0, none, none⟩⟩

/-- The objects by kind and address. -/
structure Heap where
  pairs : Store Pair := {}
  vectors : Store (Array Value) := {}
  strings : Store PackedBytes := {}
  functions : Store Function := {}
deriving DecidableEq

namespace Heap

/-- The contents of a cons. -/
def pair (heap : Heap) (cell : Address) : Pair :=
  heap.pairs.read cell

/-- The elements of a vector. -/
def vector (heap : Heap) (address : Address) : Array Value :=
  heap.vectors.read address

/-- The bytes of a string. -/
def string (heap : Heap) (address : Address) : PackedBytes :=
  heap.strings.read address

/-- The function at an address. -/
def function (heap : Heap) (address : Address) : Function :=
  heap.functions.read address

/-- Makes a new cons. -/
def cons (heap : Heap) (car cdr : Value) : Value × Heap :=
  match heap with
  | ⟨pairs, vectors, strings, functions⟩ =>
    (.cons pairs.size, ⟨pairs.push ⟨car, cdr⟩, vectors, strings, functions⟩)

/-- Makes a new list of the items that ends in `tail`. -/
def listWithTail (heap : Heap) (items : List Value) (tail : Value) : Value × Heap :=
  items.reverse.foldl (fun made item => made.2.cons item made.1) (tail, heap)

/-- Makes a new list of the items. -/
def list (heap : Heap) (items : List Value) : Value × Heap :=
  heap.listWithTail items .nil

/-- Makes a new vector. -/
def newVector (heap : Heap) (items : Array Value) : Value × Heap :=
  match heap with
  | ⟨pairs, vectors, strings, functions⟩ =>
    (.vector vectors.size, ⟨pairs, vectors.push items, strings, functions⟩)

/-- Makes a new string. -/
def newString (heap : Heap) (bytes : PackedBytes) : Value × Heap :=
  match heap with
  | ⟨pairs, vectors, strings, functions⟩ =>
    (.string strings.size, ⟨pairs, vectors, strings.push bytes, functions⟩)

/-- Makes a new function object. -/
def newFunction (heap : Heap) (function : Function) : Value × Heap :=
  match heap with
  | ⟨pairs, vectors, strings, functions⟩ =>
    (.function functions.size, ⟨pairs, vectors, strings, functions.push function⟩)

/-- Replaces the contents of a cons. -/
def setPair (heap : Heap) (cell : Address) (pair : Pair) : Heap :=
  match heap with
  | ⟨pairs, vectors, strings, functions⟩ => ⟨pairs.write cell pair, vectors, strings, functions⟩

/-- Replaces the first field of a cons. -/
def setCar (heap : Heap) (cell : Address) (car : Value) : Heap :=
  let cdr := (heap.pair cell).cdr
  heap.setPair cell ⟨car, cdr⟩

/-- Replaces the second field of a cons. -/
def setCdr (heap : Heap) (cell : Address) (cdr : Value) : Heap :=
  let car := (heap.pair cell).car
  heap.setPair cell ⟨car, cdr⟩

/-- Replaces the elements of a vector. -/
def setVector (heap : Heap) (address : Address) (items : Array Value) : Heap :=
  match heap with
  | ⟨pairs, vectors, strings, functions⟩ =>
    ⟨pairs, vectors.write address items, strings, functions⟩

/-- Replaces the elements of a vector by a change of them. -/
def modifyVector (heap : Heap) (address : Address) (change : Array Value → Array Value) : Heap :=
  match heap with
  | ⟨pairs, vectors, strings, functions⟩ =>
    ⟨pairs, vectors.modify address change, strings, functions⟩

/-- Setting a cons changes this cons alone. -/
@[simp] theorem pair_setPair (heap : Heap) (cell other : Address) (pair : Pair) :
    (heap.setPair cell pair).pair other = if other = cell then pair else heap.pair other := by
  simp [setPair, Heap.pair, Store.read_write]

/-- Setting a car changes the car of this cons alone. -/
@[simp] theorem pair_setCar (heap : Heap) (cell other : Address) (car : Value) :
    (heap.setCar cell car).pair other =
      if other = cell then ⟨car, (heap.pair cell).cdr⟩ else heap.pair other := by
  simp [setCar]

/-- Setting a cdr changes the cdr of this cons alone. -/
@[simp] theorem pair_setCdr (heap : Heap) (cell other : Address) (cdr : Value) :
    (heap.setCdr cell cdr).pair other =
      if other = cell then ⟨(heap.pair cell).car, cdr⟩ else heap.pair other := by
  simp [setCdr]

/-- Replacing a field by what it holds changes nothing. -/
theorem setCdr_self {heap : Heap} {cell : Address} {cdr : Value}
    (inside : cell < heap.pairs.size) (holds : (heap.pair cell).cdr = cdr) :
    heap.setCdr cell cdr = heap := by
  subst holds
  obtain ⟨pairs, vectors, strings, functions⟩ := heap
  simp only [setCdr, setPair, pair]
  rw [Store.write_read_self inside]

/-- Of two values put into one field, the second one stays. -/
theorem setCdr_setCdr {heap : Heap} {cell : Address} (first second : Value)
    (inside : cell < heap.pairs.size) :
    (heap.setCdr cell first).setCdr cell second = heap.setCdr cell second := by
  obtain ⟨pairs, vectors, strings, functions⟩ := heap
  simp [setCdr, setPair, pair, Store.write_write_self _ _ inside]

/-- Setting a vector changes this vector alone. -/
@[simp] theorem vector_setVector (heap : Heap) (address other : Address) (items : Array Value) :
    (heap.setVector address items).vector other =
      if other = address then items else heap.vector other := by
  simp [setVector, Heap.vector, Store.read_write]

/-- A change of a vector sets the changed elements. -/
@[simp] theorem modifyVector_eq_setVector (heap : Heap) (address : Address)
    (change : Array Value → Array Value) :
    heap.modifyVector address change = heap.setVector address (change (heap.vector address)) := by
  simp [modifyVector, setVector, Heap.vector, Store.modify_eq_write]

/-- A new cons refers to its contents, and no other cons has changed. -/
theorem pair_cons (heap : Heap) (car cdr : Value) (cell : Address) :
    (heap.cons car cdr).2.pair cell =
      if cell = heap.pairs.size then ⟨car, cdr⟩ else heap.pair cell := by
  simp [cons, Heap.pair, Store.read_push]

end Heap

end ByteLisp
