import ByteLisp.Datum.Conversion
import ByteLisp.Proofs.NewObjects
import Mathlib.Data.Finset.Card
import Mathlib.Data.Finset.Union
import Mathlib.Logic.Relation

/-!
# How deep values are nested

A value that is not part of itself is nested no deeper than there are objects: each object
on the way down is a different one. To count this, take the objects in use that are found
inside a value; an object is inside itself and not inside its parts, so every step down
leaves fewer of them.
-/

namespace ByteLisp.Heap

variable {heap : Heap}

/-- The value on the left is a field of the object on the right. -/
inductive Part (heap : Heap) : Value → Value → Prop where
  | car (cell : Address) : Part heap (heap.pair cell).car (.cons cell)
  | cdr (cell : Address) : Part heap (heap.pair cell).cdr (.cons cell)
  | element {address : Address} {item : Value} (member : item ∈ heap.vector address) :
      Part heap item (.vector address)
  | constant {address : Address} {item : Value}
      (member : item ∈ (heap.function address).constants) : Part heap item (.function address)
  | interactive {address : Address} {item : Value}
      (given : (heap.function address).interactive = some item) :
      Part heap item (.function address)

/-- The value on the left can be reached from the one on the right. -/
abbrev Inside (heap : Heap) : Value → Value → Prop :=
  Relation.ReflTransGen heap.Part

/-- Nothing that can be reached from the value can be reached from itself in turn. -/
def Acyclic (heap : Heap) (value : Value) : Prop :=
  ∀ part, heap.Inside part value → ¬ Relation.TransGen heap.Part part part

/-- What is inside a value without cycles has none. -/
theorem Acyclic.inside {part whole : Value} (acyclic : heap.Acyclic whole)
    (inside : heap.Inside part whole) : heap.Acyclic part :=
  fun inner within => acyclic inner (within.trans inside)

/-- A value is acyclic where every object has a higher rank than its parts. -/
theorem acyclic_of_rank (rank : Value → Nat)
    (falls : ∀ part whole, heap.Part part whole → rank part < rank whole) (value : Value) :
    heap.Acyclic value := by
  intro part _ cycle
  have lower : ∀ whole, Relation.TransGen heap.Part part whole → rank part < rank whole := by
    intro whole below
    induction below with
    | single isPart => exact falls _ _ isPart
    | tail _ isPart ih => exact Nat.lt_trans ih (falls _ _ isPart)
  exact Nat.lt_irrefl _ (lower part cycle)

/-- The empty list has no parts. -/
theorem not_part_nil (part : Value) : ¬ heap.Part part .nil := by
  intro isPart
  cases isPart

/-! ## Counting objects -/

/-- The objects of one kind that are in use. -/
def inUse (kind : Address → Value) (size : Nat) : Finset Value :=
  (Finset.range size).image kind

/-- There are no more values of a kind than addresses. -/
theorem card_inUse_le (kind : Address → Value) (size : Nat) : (inUse kind size).card ≤ size := by
  have card : (inUse kind size).card ≤ (Finset.range size).card := Finset.card_image_le
  rwa [Finset.card_range] at card

/-- The value at every address in use is counted. -/
theorem mem_inUse {kind : Address → Value} {size : Nat} {address : Address}
    (inside : address < size) : kind address ∈ inUse kind size :=
  Finset.mem_image_of_mem kind (Finset.mem_range.mpr inside)

/-- The objects in use that may have parts. -/
def objects (heap : Heap) : Finset Value :=
  inUse .cons heap.pairs.size ∪ inUse .vector heap.vectors.size ∪
    inUse .function heap.functions.size

/-- There are no more objects than there are cells, vectors and functions. -/
theorem card_objects_le (heap : Heap) :
    heap.objects.card ≤ heap.pairs.size + heap.vectors.size + heap.functions.size := by
  calc heap.objects.card
      ≤ (inUse .cons heap.pairs.size ∪ inUse .vector heap.vectors.size).card +
          (inUse .function heap.functions.size).card := Finset.card_union_le _ _
    _ ≤ (inUse .cons heap.pairs.size).card + (inUse .vector heap.vectors.size).card +
          (inUse .function heap.functions.size).card :=
        Nat.add_le_add_right (Finset.card_union_le _ _) _
    _ ≤ heap.pairs.size + heap.vectors.size + heap.functions.size :=
        Nat.add_le_add (Nat.add_le_add (card_inUse_le _ _) (card_inUse_le _ _))
          (card_inUse_le _ _)

/-- An object that is not in use has no parts, or `nil` only. -/
theorem eq_nil_of_part {part whole : Value} (isPart : heap.Part part whole)
    (unused : whole ∉ heap.objects) : part = .nil := by
  simp only [objects, Finset.mem_union, not_or] at unused
  obtain ⟨⟨noCons, noVector⟩, noFunction⟩ := unused
  cases isPart with
  | car cell | cdr cell =>
      have past : heap.pairs.size ≤ cell := Nat.le_of_not_lt fun inside => noCons (mem_inUse inside)
      rw [pair, Store.read_of_size_le past]
      rfl
  | @element address item member =>
      have past : heap.vectors.size ≤ address :=
        Nat.le_of_not_lt fun inside => noVector (mem_inUse inside)
      rw [vector, Store.read_of_size_le past] at member
      cases member
      contradiction
  | @constant address item member =>
      have past : heap.functions.size ≤ address :=
        Nat.le_of_not_lt fun inside => noFunction (mem_inUse inside)
      rw [function, Store.read_of_size_le past] at member
      cases member
      contradiction
  | @interactive address item given =>
      have past : heap.functions.size ≤ address :=
        Nat.le_of_not_lt fun inside => noFunction (mem_inUse inside)
      rw [function, Store.read_of_size_le past] at given
      cases given

open Classical in
/-- How many of the objects are inside the value. -/
noncomputable def countInside (heap : Heap) (objects : Finset Value) (value : Value) : Nat :=
  (objects.filter (heap.Inside · value)).card

/-- No more objects are inside a value than are counted at all. -/
theorem countInside_le (heap : Heap) (objects : Finset Value) (value : Value) :
    heap.countInside objects value ≤ objects.card := by
  classical exact Finset.card_filter_le _ _

/-- An object is inside itself, and not inside what is below it. -/
theorem countInside_lt {objects : Finset Value} {part whole : Value}
    (acyclic : heap.Acyclic whole) (member : whole ∈ objects)
    (below : Relation.TransGen heap.Part part whole) :
    heap.countInside objects part < heap.countInside objects whole := by
  classical
  apply Finset.card_lt_card
  refine ⟨fun inner within => ?_, fun every => ?_⟩
  · simp only [Finset.mem_filter] at within ⊢
    exact ⟨within.1, within.2.trans below.to_reflTransGen⟩
  · have self := every (Finset.mem_filter.mpr ⟨member, .refl⟩)
    simp only [Finset.mem_filter] at self
    exact acyclic whole .refl (Relation.TransGen.trans_right self.2 below)

/-! ## Lists -/

/-- A chain of conses that does not come back to itself ends. -/
theorem exists_chain {bound : Nat} {value : Value} (acyclic : heap.Acyclic value)
    (enough : value.isCons = true →
      heap.countInside (inUse .cons heap.pairs.size) value < bound) :
    ∃ items tail, heap.Chain value items tail ∧ items.length ≤ bound := by
  induction bound generalizing value with
  | zero =>
      cases value with
      | cons cell => exact absurd (enough rfl) (Nat.not_lt_zero _)
      | _ => exact ⟨[], _, .done rfl, Nat.le_refl 0⟩
  | succ bound ih =>
      cases value with
      | cons cell =>
          have isPart : heap.Part (heap.pair cell).cdr (.cons cell) := .cdr cell
          obtain ⟨items, tail, rest, few⟩ :=
            ih (acyclic.inside (.single isPart)) fun isCons => by
              by_cases inside : cell < heap.pairs.size
              · have fewer := countInside_lt acyclic (mem_inUse inside) (.single isPart)
                have here := enough rfl
                omega
              · rw [pair, Store.read_of_size_le (Nat.le_of_not_lt inside)] at isCons
                cases isCons
          exact ⟨_, tail, .link cell rest, Nat.succ_le_succ few⟩
      | _ => exact ⟨[], _, .done rfl, Nat.zero_le _⟩

/-- Without cycles, every value has parts, and they are a chain. -/
theorem exists_parts? {value : Value} (acyclic : heap.Acyclic value) :
    ∃ items tail, heap.parts? value = some (items.toArray, tail) ∧ heap.Chain value items tail := by
  have few := heap.countInside_le (inUse .cons heap.pairs.size) value
  have all := card_inUse_le .cons heap.pairs.size
  have enough : heap.countInside (inUse .cons heap.pairs.size) value < heap.chainBound := by
    rw [chainBound]
    omega
  obtain ⟨items, tail, chain, short⟩ := exists_chain acyclic fun _ => enough
  exact ⟨items, tail, parts?_of_chain chain short, chain⟩

/-- The elements of a chain, and the value in which it ends, are inside it. -/
theorem Chain.inside {value tail : Value} {items : List Value}
    (chain : heap.Chain value items tail) :
    (∀ item ∈ items, Relation.TransGen heap.Part item value) ∧ heap.Inside tail value := by
  induction chain with
  | done ends => exact ⟨List.forall_mem_nil _, .refl⟩
  | link cell rest ih =>
      have isPart : heap.Part (heap.pair cell).cdr (.cons cell) := .cdr cell
      refine ⟨List.forall_mem_cons.mpr ⟨.single (.car cell), fun item member => ?_⟩, ?_⟩
      · exact (ih.1 item member).tail isPart
      · exact ih.2.tail isPart

/-! ## All values -/

/-- The bound is enough for the nesting of the value: it exceeds the number of objects on
any way down, with one to spare for an object that is not in use. -/
def NestedWithin (heap : Heap) (bound : Nat) (value : Value) : Prop :=
  heap.countInside heap.objects value + 2 ≤ bound ∨
    0 < bound ∧ ∀ part, ¬ heap.Part part value

/-- The bound is large enough for every value. -/
theorem nestedWithin_nestingBound (value : Value) : heap.NestedWithin heap.nestingBound value := by
  have few := heap.countInside_le heap.objects value
  have all := heap.card_objects_le
  refine .inl ?_
  rw [nestingBound]
  omega

namespace NestedWithin

variable {bound : Nat} {inner whole : Value}

/-- A bound is at least one. -/
theorem pos (nested : heap.NestedWithin bound whole) : 0 < bound := by
  obtain enough | ⟨positive, _⟩ := nested
  · omega
  · exact positive

/-- A larger bound is a bound. -/
theorem succ (nested : heap.NestedWithin bound whole) : heap.NestedWithin (bound + 1) whole := by
  obtain enough | ⟨positive, leaf⟩ := nested
  · exact .inl (by omega)
  · exact .inr ⟨Nat.succ_pos bound, leaf⟩

/-- A part is nested one level less deep. -/
theorem part (nested : heap.NestedWithin (bound + 1) whole) (acyclic : heap.Acyclic whole)
    (isPart : heap.Part inner whole) : heap.NestedWithin bound inner := by
  obtain enough | ⟨_, leaf⟩ := nested
  · by_cases used : whole ∈ heap.objects
    · have fewer := countInside_lt acyclic used (.single isPart)
      exact .inl (by omega)
    · obtain rfl := eq_nil_of_part isPart used
      exact .inr ⟨by omega, not_part_nil⟩
  · exact absurd isPart (leaf inner)

/-- One level is enough for all that is below a value. -/
theorem below (nested : heap.NestedWithin (bound + 1) whole) (acyclic : heap.Acyclic whole)
    (isBelow : Relation.TransGen heap.Part inner whole) : heap.NestedWithin bound inner := by
  induction isBelow using Relation.TransGen.head_induction_on with
  | single isPart => exact nested.part acyclic isPart
  | head isPart further ih =>
      exact ih.succ.part (acyclic.inside further.to_reflTransGen) isPart

end NestedWithin

end ByteLisp.Heap
