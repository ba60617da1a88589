import ByteLisp.Heap.Chain

/-!
# New objects

A new object gets an address past all that are in use, so every object that is there
already stays as it is. `Heap.Extends` says this of two heaps. A new list is a chain of
new conses, and remains that chain in every heap that extends the one it was made in.
-/

namespace ByteLisp

/-- What is in use in one store is in use, with the same contents, in the other. -/
structure Store.Extends {α : Type} [Inhabited α] (before after : Store α) : Prop where
  size_le : before.size ≤ after.size
  read : ∀ address, address < before.size → after.read address = before.read address

namespace Store.Extends

variable {α : Type} [Inhabited α] {before middle after : Store α}

/-- A store extends itself. -/
theorem refl (store : Store α) : store.Extends store :=
  ⟨Nat.le_refl _, fun _ _ => rfl⟩

/-- What extends an extension extends the store. -/
theorem trans (first : before.Extends middle) (second : middle.Extends after) :
    before.Extends after := by
  refine ⟨Nat.le_trans first.size_le second.size_le, fun address inside => ?_⟩
  have within : address < middle.size := Nat.lt_of_lt_of_le inside first.size_le
  rw [second.read address within, first.read address inside]

/-- Adding content extends a store. -/
theorem push (store : Store α) (content : α) : store.Extends (store.push content) := by
  refine ⟨by simp, fun address inside => ?_⟩
  rw [read_push, if_neg (Nat.ne_of_lt inside)]

end Store.Extends

namespace Heap

/-- Every object of one heap is an object of the other, with the same contents. -/
structure Extends (before after : Heap) : Prop where
  pairs : before.pairs.Extends after.pairs
  vectors : before.vectors.Extends after.vectors
  strings : before.strings.Extends after.strings
  functions : before.functions.Extends after.functions

namespace Extends

variable {before middle after : Heap}

/-- A heap extends itself. -/
theorem refl (heap : Heap) : heap.Extends heap :=
  ⟨.refl _, .refl _, .refl _, .refl _⟩

/-- What extends an extension extends the heap. -/
theorem trans (first : before.Extends middle) (second : middle.Extends after) :
    before.Extends after where
  pairs := first.pairs.trans second.pairs
  vectors := first.vectors.trans second.vectors
  strings := first.strings.trans second.strings
  functions := first.functions.trans second.functions

end Extends

/-- A new cons leaves all objects as they are. -/
theorem extends_cons (heap : Heap) (car cdr : Value) : heap.Extends (heap.cons car cdr).2 :=
  ⟨.push _ _, .refl _, .refl _, .refl _⟩

@[simp] theorem size_pairs_cons (heap : Heap) (car cdr : Value) :
    (heap.cons car cdr).2.pairs.size = heap.pairs.size + 1 :=
  Store.size_push _ _

/-- So does a new vector. -/
theorem extends_newVector (heap : Heap) (items : Array Value) :
    heap.Extends (heap.newVector items).2 :=
  ⟨.refl _, .push _ _, .refl _, .refl _⟩

/-- So does a new string. -/
theorem extends_newString (heap : Heap) (bytes : PackedBytes) :
    heap.Extends (heap.newString bytes).2 :=
  ⟨.refl _, .refl _, .push _ _, .refl _⟩

/-- So does a new function. -/
theorem extends_newFunction (heap : Heap) (function : Function) :
    heap.Extends (heap.newFunction function).2 :=
  ⟨.refl _, .refl _, .refl _, .push _ _⟩

/-- A new cons keeps its contents. -/
theorem pair_of_extends_cons {heap later : Heap} {car cdr : Value}
    (kept : (heap.cons car cdr).2.Extends later) : later.pair heap.pairs.size = ⟨car, cdr⟩ := by
  have inside : heap.pairs.size < (heap.cons car cdr).2.pairs.size := by simp
  have same : later.pair heap.pairs.size = (heap.cons car cdr).2.pair heap.pairs.size :=
    kept.pairs.read _ inside
  rw [same, pair_cons, if_pos rfl]

/-! ## Lists -/

@[simp] theorem listWithTail_nil (heap : Heap) (tail : Value) :
    heap.listWithTail [] tail = (tail, heap) :=
  rfl

/-- A list is made from its end: the rest first, then the first cons. -/
@[simp] theorem listWithTail_cons (heap : Heap) (item : Value) (items : List Value)
    (tail : Value) :
    heap.listWithTail (item :: items) tail =
      (heap.listWithTail items tail).2.cons item (heap.listWithTail items tail).1 := by
  simp [listWithTail]

/-- A new list leaves all objects as they are. -/
theorem extends_listWithTail (heap : Heap) (items : List Value) (tail : Value) :
    heap.Extends (heap.listWithTail items tail).2 := by
  induction items with
  | nil => exact .refl heap
  | cons item items ih =>
      rw [listWithTail_cons]
      exact ih.trans (extends_cons _ _ _)

/-- A list takes one cons for each item. -/
theorem size_pairs_listWithTail (heap : Heap) (items : List Value) (tail : Value) :
    (heap.listWithTail items tail).2.pairs.size = heap.pairs.size + items.length := by
  induction items with
  | nil => rfl
  | cons item items ih =>
      rw [listWithTail_cons, size_pairs_cons, ih, List.length_cons]
      omega

/-- What is made as a list is one. -/
theorem isList_list (heap : Heap) (items : List Value) : (heap.list items).1.isList = true := by
  cases items with
  | nil => rfl
  | cons item items =>
      rw [list, listWithTail_cons]
      rfl

/-- The conses that follow one another from a value on have these elements, and the last
of them is followed by a value that is not a cons. -/
inductive Chain (heap : Heap) : Value → List Value → Value → Prop where
  | done {tail : Value} (ends : tail.isCons = false) : Chain heap tail [] tail
  | link (cell : Address) {items : List Value} {tail : Value}
      (rest : Chain heap (heap.pair cell).cdr items tail) :
      Chain heap (.cons cell) ((heap.pair cell).car :: items) tail

/-- A cons with known contents, in front of a chain. -/
theorem Chain.link_of_pair {heap : Heap} {cell : Address} {car cdr tail : Value}
    {items : List Value} (holds : heap.pair cell = ⟨car, cdr⟩) (rest : heap.Chain cdr items tail) :
    heap.Chain (.cons cell) (car :: items) tail := by
  have linked : heap.Chain (heap.pair cell).cdr items tail := by rwa [holds]
  have whole := Chain.link cell linked
  rwa [holds] at whole

/-- A chain is determined by the value that starts it. -/
theorem Chain.unique {heap : Heap} {value tail last : Value} {items others : List Value}
    (chain : heap.Chain value items tail) (other : heap.Chain value others last) :
    items = others ∧ tail = last := by
  induction chain generalizing others with
  | done ends =>
      cases other with
      | done _ => exact ⟨rfl, rfl⟩
      | link _ _ => cases ends
  | link cell rest ih =>
      cases other with
      | done ends => cases ends
      | link _ otherRest =>
          obtain ⟨rfl, rfl⟩ := ih otherRest
          exact ⟨rfl, rfl⟩

/-- What follows the first cons of a chain. -/
theorem Chain.next {heap : Heap} {value item tail : Value} {items : List Value}
    (chain : heap.Chain value (item :: items) tail) : heap.Chain (heap.next value) items tail := by
  cases chain with
  | link cell rest => exact rest

/-- Collecting goes along the whole chain, when it may take enough steps: the value that
follows behind has more of the chain before it, so it is never met. -/
theorem collect?_of_chain {heap : Heap} {slow value tail : Value} {items passed : List Value}
    (chain : heap.Chain value items tail) (behind : heap.Chain slow passed tail) (bound : Nat)
    (enough : items.length ≤ bound) (before : Array Value)
    (apart : passed.length + before.size / 2 = items.length + before.size) :
    heap.collect? bound slow value before = some (before ++ items.toArray, tail) := by
  induction chain generalizing slow passed bound before with
  | @done tail ends =>
      unfold collect?
      split
      · cases ends
      · simp
  | @link cell items tail rest ih =>
      cases bound with
      | zero => cases enough
      | succ bound =>
          have further := Nat.le_of_succ_le_succ enough
          rw [List.length_cons] at apart
          rw [collect?]
          simp only [Array.size_push]
          split
          next even =>
            obtain _ | ⟨first, passed⟩ := passed
            · rw [List.length_nil] at apart
              omega
            · rw [List.length_cons] at apart
              have different : heap.next slow ≠ (heap.pair cell).cdr := by
                intro same
                have lengths := congrArg List.length (rest.unique (same ▸ behind.next)).1
                omega
              rw [if_neg (mt Value.isCons_and_isEq_iff.mp fun met => different met.2),
                ih behind.next bound further _ (by simp; omega)]
              simp
          next odd =>
            rw [ih behind bound further _ (by simp; omega)]
            simp

/-- A chain of no more conses than there can be is taken apart. -/
theorem parts?_of_chain {heap : Heap} {value tail : Value} {items : List Value}
    (chain : heap.Chain value items tail) (enough : items.length ≤ heap.chainBound) :
    heap.parts? value = some (items.toArray, tail) := by
  have collected := collect?_of_chain chain chain (2 * heap.chainBound) (by omega) #[] rfl
  simpa [parts?] using collected

/-- A chain that ends in `nil` has its items as elements. -/
theorem elements_of_chain {heap : Heap} {value tail : Value} {items : List Value}
    (chain : heap.Chain value items tail) (enough : items.length ≤ heap.chainBound)
    (ends : tail.isNil = true) : heap.elements value = .ok items.toArray := by
  simp [elements, parts?_of_chain chain enough, ends]

/-- A new list is a chain of its items, in front of the chain that its tail starts. -/
theorem chain_listWithTail {heap later : Heap} {items further : List Value} {tail last : Value}
    (kept : (heap.listWithTail items tail).2.Extends later)
    (rest : later.Chain tail further last) :
    later.Chain (heap.listWithTail items tail).1 (items ++ further) last := by
  induction items with
  | nil => exact rest
  | cons item items ih =>
      rw [listWithTail_cons] at kept ⊢
      have before := ih ((extends_cons _ _ _).trans kept)
      exact .link_of_pair (pair_of_extends_cons kept) before

/-- The elements of a new list are its items, also after more objects have been made. -/
theorem elements_list {heap later : Heap} {items : List Value}
    (kept : (heap.list items).2.Extends later) :
    later.elements (heap.list items).1 = .ok items.toArray := by
  have chain := chain_listWithTail kept (.done rfl)
  rw [List.append_nil] at chain
  have enough : items.length ≤ later.pairs.size := by
    have made := size_pairs_listWithTail heap items .nil
    have grown := kept.pairs.size_le
    simp only [list] at grown
    omega
  exact elements_of_chain chain (Nat.le_succ_of_le enough) rfl

end Heap

end ByteLisp
