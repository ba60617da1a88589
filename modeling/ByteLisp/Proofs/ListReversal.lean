import ByteLisp.Proofs.DataFaults
import ByteLisp.Proofs.ListShapes

/-!
# Reversing lists in place

Turning the links of a list around, cell by cell, always comes to an end. A list that ends is
walked once. A circular list is walked through its stem and once around its cycle, and then
back through the stem, whose links point the other way by then: the stem comes out as it was,
and only the cycle is reversed. `Lists.nreverse_by_shape` says so for every heap.
-/

namespace ByteLisp

open Value

namespace Heap

variable {heap after : Heap} {cells : List Address} {following : Value}

/-! ## Turning links around -/

/-- Between the heaps nothing has changed but links of the cells. -/
structure Relinks (before : Heap) (cells : List Address) (after : Heap) : Prop where
  car : ∀ cell, (after.pair cell).car = (before.pair cell).car
  others : ∀ cell, cell ∉ cells → after.pair cell = before.pair cell
  vectors : after.vectors = before.vectors
  strings : after.strings = before.strings
  functions : after.functions = before.functions

/-- Changes of the same links, one after the other, are changes of these links. -/
theorem Relinks.trans {before middle after : Heap} (first : Relinks before cells middle)
    (second : Relinks middle cells after) : Relinks before cells after where
  car cell := (second.car cell).trans (first.car cell)
  others cell isOut := (second.others cell isOut).trans (first.others cell isOut)
  vectors := second.vectors.trans first.vectors
  strings := second.strings.trans first.strings
  functions := second.functions.trans first.functions

/-- Links that are not changed may be added. -/
theorem Relinks.mono {before after : Heap} {more : List Address}
    (relinks : Relinks before cells after) (subset : cells ⊆ more) : Relinks before more after :=
  { relinks with others := fun cell isOut => relinks.others cell fun isIn => isOut (subset isIn) }

/-- Setting a cdr changes the link of one cons. -/
theorem relinks_setCdr (heap : Heap) (cell : Address) (cdr : Value) :
    Relinks heap [cell] (heap.setCdr cell cdr) where
  car other := by
    rw [pair_setCdr]
    split
    · next same => rw [same]
    · rfl
  others other isOut := by
    rw [pair_setCdr, if_neg (by simpa using isOut)]
  vectors := rfl
  strings := rfl
  functions := rfl

/-- The heap after the links of the cells have been turned around in turn, the first of them
to `back`. -/
def turned (heap : Heap) : List Address → Value → Heap
  | [], _ => heap
  | cell :: cells, back => (heap.setCdr cell back).turned cells (.cons cell)

/-- Turning a list around changes the links of its cells. -/
theorem relinks_turned (heap : Heap) (cells : List Address) (back : Value) :
    Relinks heap cells (heap.turned cells back) := by
  induction cells generalizing heap back with
  | nil => exact ⟨fun _ => rfl, fun _ _ => rfl, rfl, rfl, rfl⟩
  | cons cell cells ih =>
      have first : Relinks heap (cell :: cells) (heap.setCdr cell back) :=
        (heap.relinks_setCdr cell back).mono (by simp)
      have rest := (ih (heap.setCdr cell back) (.cons cell)).mono (List.subset_cons_self cell cells)
      exact first.trans rest

/-- After turning, the cells are linked in the other order. -/
theorem linked_turned (distinct : cells.Nodup) (heap : Heap) (back : Value) :
    (heap.turned cells back).Linked cells.reverse back := by
  induction cells generalizing heap back with
  | nil => trivial
  | cons cell cells ih =>
      obtain ⟨apart, others⟩ := List.nodup_cons.mp distinct
      rw [List.reverse_cons, linked_append]
      refine ⟨ih others _ _, ?_, trivial⟩
      have kept := ((heap.setCdr cell back).relinks_turned cells (.cons cell)).others cell apart
      rw [turned, kept, pair_setCdr, if_pos rfl]
      rfl

/-- Turning links around, without a bound: the walk comes to an end after so many cells, at
the first value that is not a cons. -/
inductive Turns : Heap → Value → Value → Nat → Value × Value × Heap → Prop where
  | stop {heap : Heap} {tail back : Value} (ends : tail.isCons = false) :
      Turns heap tail back 0 (tail, back, heap)
  | turn {heap : Heap} {cell : Address} {back : Value} {steps : Nat}
      {outcome : Value × Value × Heap}
      (rest : Turns (heap.setCdr cell back) (heap.pair cell).cdr (.cons cell) steps outcome) :
      Turns heap (.cons cell) back (steps + 1) outcome

/-- The bounded walk is the same, when its bound is large enough. -/
theorem relink_of_turns {tail back : Value} {steps bound : Nat} {outcome : Value × Value × Heap}
    (turns : heap.Turns tail back steps outcome) (enough : steps ≤ bound) :
    heap.relink bound tail back = outcome := by
  induction turns generalizing bound with
  | @stop heap tail back ends =>
      unfold relink
      split
      · cases ends
      · rfl
  | turn rest ih =>
      cases bound with
      | zero => cases enough
      | succ bound => exact ih (Nat.le_of_succ_le_succ enough)

/-- A walk along cells turns them around, and goes on with what follows them. -/
theorem Turns.along (distinct : cells.Nodup) (linked : heap.Linked cells following) {back : Value}
    {steps : Nat} {outcome : Value × Value × Heap}
    (rest : Turns (heap.turned cells back) following (firstOf cells.reverse back) steps outcome) :
    Turns heap (firstOf cells following) back (cells.length + steps) outcome := by
  induction cells generalizing heap back with
  | nil =>
      rw [List.length_nil, Nat.zero_add]
      exact rest
  | cons cell cells ih =>
      obtain ⟨apart, others⟩ := List.nodup_cons.mp distinct
      obtain ⟨link, links⟩ := linked
      have kept : (heap.setCdr cell back).Linked cells following := by
        refine links.congr fun other isIn => ?_
        rw [pair_setCdr, if_neg]
        rintro rfl
        exact apart isIn
      rw [List.reverse_cons, firstOf_append] at rest
      have further := ih others kept rest
      rw [← link] at further
      rw [List.length_cons, Nat.add_right_comm]
      exact .turn further

/-! ## Reversing by shape -/

/-- A list that ends is walked once. -/
theorem turns_of_ended (linked : heap.Linked cells following) (ends : following.isCons = false) :
    heap.Turns (firstOf cells following) .nil cells.length
      (following, firstOf cells.reverse .nil, heap.turned cells .nil) :=
  .along (linked.nodup ends) linked (.stop ends)

section Circular

variable {stem cycle : List Address} {first : Address}

/-- The heap after a walk through the stem and once around the cycle, and then back through
the stem. -/
def turnedAround (heap : Heap) (stem : List Address) (first : Address) (cycle : List Address) :
    Heap :=
  (heap.turned (stem ++ first :: cycle) .nil).turned (first :: stem.reverse)
    (firstOf cycle.reverse (.cons first))

/-- The walk comes back to the first cell of the cycle, and from there leads to the stem. -/
theorem linked_back (distinct : (stem ++ first :: cycle).Nodup) (heap : Heap) :
    (heap.turned (stem ++ first :: cycle) .nil).Linked cycle.reverse (.cons first) ∧
      (heap.turned (stem ++ first :: cycle) .nil).Linked (first :: stem.reverse) .nil := by
  have back := linked_turned distinct heap .nil
  rw [List.reverse_append, List.reverse_cons, List.append_assoc, List.singleton_append,
    linked_append] at back
  exact back

/-- The way back from a cycle through its stem meets no cell twice. -/
theorem nodup_back (distinct : (stem ++ first :: cycle).Nodup) : (first :: stem.reverse).Nodup := by
  obtain ⟨stemDistinct, _, apart⟩ := List.nodup_append.mp distinct
  refine List.nodup_cons.mpr ⟨fun isIn => ?_, List.nodup_reverse.mpr stemDistinct⟩
  exact apart first (List.mem_reverse.mp isIn) first List.mem_cons_self rfl

/-- A circular list is walked through its stem, once around its cycle, and back through its
stem. -/
theorem turns_of_circular (linked : heap.Linked (stem ++ first :: cycle) (.cons first))
    (distinct : (stem ++ first :: cycle).Nodup) :
    heap.Turns (firstOf stem (.cons first)) .nil
      ((stem ++ first :: cycle).length + (stem.length + 1))
      (.nil, firstOf stem (.cons first), heap.turnedAround stem first cycle) := by
  have arrived : firstOf (stem ++ first :: cycle).reverse .nil =
      firstOf cycle.reverse (.cons first) := by
    simp
  have ended : firstOf (first :: stem.reverse).reverse (firstOf cycle.reverse (.cons first)) =
      firstOf stem (.cons first) := by
    simp
  -- By the time the walk comes back to the cycle's first cell, this one leads to the stem.
  have back : Turns (heap.turned (stem ++ first :: cycle) .nil) (.cons first)
      (firstOf cycle.reverse (.cons first)) ((first :: stem.reverse).length + 0)
      (.nil, firstOf (first :: stem.reverse).reverse (firstOf cycle.reverse (.cons first)),
        heap.turnedAround stem first cycle) :=
    .along (nodup_back distinct) (linked_back distinct heap).2 (.stop rfl)
  rw [ended, ← arrived, List.length_cons, List.length_reverse] at back
  have whole := Turns.along distinct linked back
  rwa [firstOf_append] at whole

/-- Turning a circular list around changes the links of its cells. -/
theorem relinks_turnedAround (heap : Heap) (stem : List Address) (first : Address)
    (cycle : List Address) :
    Relinks heap (stem ++ first :: cycle) (heap.turnedAround stem first cycle) := by
  have back : first :: stem.reverse ⊆ stem ++ first :: cycle := by
    intro cell isIn
    simp only [List.mem_cons, List.mem_reverse, List.mem_append] at isIn ⊢
    tauto
  exact (heap.relinks_turned _ _).trans ((relinks_turned _ _ _).mono back)

/-- The stem is linked as before, and the cycle the other way around. -/
theorem linked_turnedAround (distinct : (stem ++ first :: cycle).Nodup) (heap : Heap) :
    (heap.turnedAround stem first cycle).Linked (stem ++ first :: cycle.reverse) (.cons first) := by
  have forth := linked_turned (nodup_back distinct) (heap.turned (stem ++ first :: cycle) .nil)
    (firstOf cycle.reverse (.cons first))
  rw [List.reverse_cons, List.reverse_reverse, linked_append] at forth
  obtain ⟨stemLinked, link, _⟩ := forth
  refine linked_append.mpr ⟨stemLinked, link, ?_⟩
  -- The other cells of the cycle are not met again on the way back through the stem.
  refine (linked_back distinct heap).1.congr fun cell isIn => ?_
  have apart : cell ∉ first :: stem.reverse := by
    have around : cell ∈ cycle := List.mem_reverse.mp isIn
    obtain ⟨_, cycleDistinct, different⟩ := List.nodup_append.mp distinct
    rw [List.mem_cons, List.mem_reverse, not_or]
    constructor
    · rintro rfl
      exact (List.nodup_cons.mp cycleDistinct).1 around
    · exact fun inStem => different cell inStem cell (List.mem_cons_of_mem _ around) rfl
  exact congrArg Pair.cdr ((relinks_turned _ _ _).others cell apart)

end Circular

end Heap

namespace Lists

open Heap

/-- In-place reversal of anything but a vector is the walk without a bound. -/
theorem nreverse_of_turns {heap after : Heap} {sequence tail reversed : Value} {steps : Nat}
    (noVector : ∀ address, sequence ≠ .vector address)
    (turns : heap.Turns sequence .nil steps (tail, reversed, after))
    (enough : steps ≤ 2 * heap.chainBound) :
    nreverse sequence heap =
      (if tail.isNil then .ok reversed else .error (.wrongType .listp sequence), after) := by
  have walked := relink_of_turns turns enough
  unfold nreverse
  split
  · exact absurd rfl (noVector _)
  · rw [walked]

/-- The elements of the copy that `reverse` makes. -/
theorem reverse_of_elements {heap : Heap} {sequence : Value} {items : Array Value}
    (noVector : ∀ address, sequence ≠ .vector address)
    (elements : heap.elements sequence = .ok items) :
    ∃ copy after, reverse sequence heap = (.ok copy, after) ∧
      after.elements copy = .ok items.reverse := by
  refine ⟨(heap.list items.toList.reverse).1, (heap.list items.toList.reverse).2, ?_, ?_⟩
  · unfold reverse
    split
    · exact absurd rfl (noVector _)
    · simp only [run_bind, HeapM.look, elements]
      rfl
  · rw [elements_list (.refl _), ← Array.toList_reverse]

section Shapes

variable {heap : Heap} {cells stem cycle : List Address} {following : Value} {first : Address}

/-- A list that ends is turned around, and refused afterwards if its end is not `nil`. -/
theorem nreverse_of_ended (noVector : ∀ address, firstOf cells following ≠ .vector address)
    (linked : heap.Linked cells following) (ends : following.isCons = false) :
    nreverse (firstOf cells following) heap =
      (if following.isNil then .ok (firstOf cells.reverse .nil)
        else .error (.wrongType .listp (firstOf cells following)), heap.turned cells .nil) := by
  have few := linked.length_le_chainBound (linked.nodup ends)
  exact nreverse_of_turns noVector (turns_of_ended linked ends) (by omega)

/-- A circular list is turned around and comes back to its own first cons. -/
theorem nreverse_of_circular (linked : heap.Linked (stem ++ first :: cycle) (.cons first))
    (distinct : (stem ++ first :: cycle).Nodup) :
    nreverse (firstOf stem (.cons first)) heap =
      (.ok (firstOf stem (.cons first)), heap.turnedAround stem first cycle) := by
  have noVector : ∀ address, firstOf stem (.cons first) ≠ .vector address := by
    cases stem <;> simp
  have few := linked.length_le_size distinct
  refine nreverse_of_turns noVector (turns_of_circular linked distinct) ?_
  simp only [List.length_append, List.length_cons, chainBound] at few ⊢
  omega

/-- The elements of a list that has been turned around. -/
theorem elements_turned (linked : heap.Linked cells following) (ends : following.isNil = true) :
    ∃ items, heap.elements (firstOf cells following) = .ok items ∧
      (heap.turned cells .nil).elements (firstOf cells.reverse .nil) = .ok items.reverse := by
  refine ⟨_, linked.elements ends, ?_⟩
  have distinct := linked.nodup (isCons_of_isNil ends)
  rw [(linked_turned distinct heap .nil).elements rfl]
  simp only [(heap.relinks_turned cells .nil).car, List.map_reverse, List.reverse_toArray]

end Shapes

/-- Reversing in place always comes to an end, whatever the heap: the walk that turns the
links around without a bound does, and the answer is what it comes to. Every value but a
vector starts a chain that ends or that is circular.
- On the cells of a list that ends in `nil` the answer is the last cell, from which the cells
  are linked in the other order. The elements are those of the list in the other order, which
  are also those of the copy that `reverse` makes.
- On a circular list the answer is the list itself. Its stem is linked as before, and the
  cells of its cycle are linked in the other order.
- On a list that ends in another value the answer is a fault that names the list.
In all cases nothing has changed but the links of the cells. -/
theorem nreverse_by_shape (heap : Heap) (sequence : Value)
    (noVector : ∀ address, sequence ≠ .vector address) :
    (∃ steps tail reversed after, heap.Turns sequence .nil steps (tail, reversed, after) ∧
      nreverse sequence heap =
        (if tail.isNil then .ok reversed else .error (.wrongType .listp sequence), after)) ∧
    heap.Shape sequence ∧
    (∀ cells following, sequence = firstOf cells following → heap.Linked cells following →
      following.isNil = true →
      ∃ after, nreverse sequence heap = (.ok (firstOf cells.reverse .nil), after) ∧
        after.Linked cells.reverse .nil ∧ heap.Relinks cells after ∧
        ∃ items copy copied, heap.elements sequence = .ok items ∧
          after.elements (firstOf cells.reverse .nil) = .ok items.reverse ∧
          reverse sequence heap = (.ok copy, copied) ∧
          copied.elements copy = .ok items.reverse) ∧
    (∀ stem first cycle, sequence = firstOf stem (.cons first) →
      heap.Linked (stem ++ first :: cycle) (.cons first) → (stem ++ first :: cycle).Nodup →
      ∃ after, nreverse sequence heap = (.ok sequence, after) ∧
        after.Linked (stem ++ first :: cycle.reverse) (.cons first) ∧
        heap.Relinks (stem ++ first :: cycle) after) ∧
    ∀ cells following, sequence = firstOf cells following → heap.Linked cells following →
      following.isCons = false → following.isNil = false →
      ∃ after, nreverse sequence heap = (.error (.wrongType .listp sequence), after) ∧
        after.Linked cells.reverse .nil ∧ heap.Relinks cells after := by
  refine ⟨?_, heap.exists_shape sequence, ?_, ?_, ?_⟩
  · cases heap.exists_shape sequence with
    | ended linked ends =>
        exact ⟨_, _, _, _, turns_of_ended linked ends, nreverse_of_ended noVector linked ends⟩
    | circular linked distinct =>
        exact ⟨_, _, _, _, turns_of_circular linked distinct,
          nreverse_of_circular linked distinct⟩
  · rintro cells following rfl linked isNil
    have ends := isCons_of_isNil isNil
    obtain ⟨items, elements, turnedElements⟩ := elements_turned linked isNil
    obtain ⟨copy, copied, reversed, copiedElements⟩ := reverse_of_elements noVector elements
    refine ⟨heap.turned cells .nil, ?_, linked_turned (linked.nodup ends) heap .nil,
      heap.relinks_turned cells .nil, items, copy, copied, elements, turnedElements, reversed,
      copiedElements⟩
    rw [nreverse_of_ended noVector linked ends, if_pos isNil]
  · rintro stem first cycle rfl linked distinct
    exact ⟨_, nreverse_of_circular linked distinct, linked_turnedAround distinct heap,
      heap.relinks_turnedAround stem first cycle⟩
  · rintro cells following rfl linked ends other
    refine ⟨heap.turned cells .nil, ?_, linked_turned (linked.nodup ends) heap .nil,
      heap.relinks_turned cells .nil⟩
    rw [nreverse_of_ended noVector linked ends, if_neg (by simp [other])]

/-- A heap with four cells, the first of which leads to a cycle of the others. -/
def leadingToCycle : Heap where
  pairs := ⟨#[⟨.int 0, .cons 1⟩, ⟨.int 1, .cons 2⟩, ⟨.int 2, .cons 3⟩, ⟨.int 3, .cons 1⟩]⟩

/-- The first cell still leads to the second, and the cycle goes the other way. -/
theorem leadingToCycle_turned_around :
    ∃ after, nreverse (.cons 0) leadingToCycle = (.ok (.cons 0), after) ∧
      (after.pair 0).cdr = .cons 1 ∧ (after.pair 1).cdr = .cons 3 ∧
      (after.pair 3).cdr = .cons 2 ∧ (after.pair 2).cdr = .cons 1 := by
  obtain ⟨-, -, -, circular, -⟩ := nreverse_by_shape leadingToCycle (.cons 0) (by simp)
  obtain ⟨after, answered, ⟨toFirst, toLast, back, around, -⟩, -⟩ :=
    circular [0] 1 [2, 3] rfl ⟨rfl, rfl, rfl, rfl, trivial⟩ (by decide)
  exact ⟨after, answered, toFirst, toLast, back, around⟩

end Lists

end ByteLisp
