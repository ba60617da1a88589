import ByteLisp.Proofs.NewObjects
import Mathlib.Data.List.Nodup
import Mathlib.Data.List.Perm.Subperm
import Mathlib.Dynamics.PeriodicPts.Defs

/-!
# The shapes of lists

The cells of a list are linked one to the next. Every value starts a chain of cells that ends
in a value that is not a cons, or one that comes back to one of its own cells: in a heap there
are only so many cells. `Heap.exists_shape` says so.

Where a walk is after a number of steps is told by the shape. Along a chain that ends it is on
another cell every time. Along a circular one it comes to the same cell twice when the cell is
on the cycle and the steps in between lead around it some number of times.
-/

namespace ByteLisp

/-- What refers to the first of the cells, or else to what follows them. -/
def Value.firstOf : List Address → Value → Value
  | [], following => following
  | cell :: _, _ => .cons cell

open Value

@[simp] theorem Value.firstOf_nil (following : Value) : firstOf [] following = following :=
  rfl

@[simp] theorem Value.firstOf_cons (cell : Address) (cells : List Address) (following : Value) :
    firstOf (cell :: cells) following = .cons cell :=
  rfl

/-- Cells in two parts begin where the first part does. -/
@[simp] theorem Value.firstOf_append (cells others : List Address) (following : Value) :
    firstOf (cells ++ others) following = firstOf cells (firstOf others following) := by
  cases cells <;> rfl

/-- No form of `nil` is a cons. -/
theorem Value.isCons_of_isNil {value : Value} (isNil : value.isNil = true) :
    value.isCons = false := by
  cases value with
  | cons cell => cases isNil
  | _ => rfl

namespace Heap

/-- Each of the cells is linked to the next, and the last one to what follows. -/
def Linked (heap : Heap) : List Address → Value → Prop
  | [], _ => True
  | cell :: cells, following =>
    (heap.pair cell).cdr = firstOf cells following ∧ heap.Linked cells following

variable {heap after : Heap} {cells : List Address} {following : Value}

/-- Cells in two parts are linked when each part is, and the first leads to the second. -/
theorem linked_append {others : List Address} :
    heap.Linked (cells ++ others) following ↔
      heap.Linked cells (firstOf others following) ∧ heap.Linked others following := by
  induction cells with
  | nil => simp [Linked]
  | cons cell cells ih => simp only [List.cons_append, Linked, ih, firstOf_append, and_assoc]

/-- Only the links of the cells matter. -/
theorem Linked.congr (linked : heap.Linked cells following)
    (same : ∀ cell ∈ cells, (after.pair cell).cdr = (heap.pair cell).cdr) :
    after.Linked cells following := by
  induction cells with
  | nil => trivial
  | cons cell cells ih =>
      obtain ⟨link, rest⟩ := linked
      refine ⟨?_, ih rest fun other isIn => same other (List.mem_cons_of_mem _ isIn)⟩
      rw [same cell List.mem_cons_self, link]

/-! ## The shapes of lists -/

/-- A cons that is not in use has `nil` in both fields. -/
theorem lt_size_of_cdr_eq_cons {cell next : Address} (link : (heap.pair cell).cdr = .cons next) :
    cell < heap.pairs.size := by
  by_contra outside
  rw [pair, Store.read_of_size_le (Nat.le_of_not_lt outside)] at link
  cases link

/-- A cell that leads to another is in use. -/
theorem Linked.lt_size {next : Address} (linked : heap.Linked cells (.cons next)) :
    ∀ cell ∈ cells, cell < heap.pairs.size := by
  induction cells with
  | nil => exact List.forall_mem_nil _
  | cons cell cells ih =>
      obtain ⟨link, rest⟩ := linked
      refine List.forall_mem_cons.mpr ⟨?_, ih rest⟩
      cases cells with
      | nil => exact lt_size_of_cdr_eq_cons link
      | cons other cells => exact lt_size_of_cdr_eq_cons link

/-- There are no more cells in a chain that goes on than there are in use. -/
theorem Linked.length_le_size {next : Address} (linked : heap.Linked cells (.cons next))
    (distinct : cells.Nodup) : cells.length ≤ heap.pairs.size := by
  have inside : cells ⊆ List.range heap.pairs.size := fun cell isIn =>
    List.mem_range.mpr (linked.lt_size cell isIn)
  simpa using (distinct.subperm inside).length_le

/-- The last cell of a chain that ends need not be in use. -/
theorem Linked.length_le_chainBound (linked : heap.Linked cells following)
    (distinct : cells.Nodup) : cells.length ≤ heap.chainBound := by
  obtain rfl | ⟨front, last, rfl⟩ := cells.eq_nil_or_concat
  · exact Nat.zero_le _
  · rw [List.concat_eq_append] at linked distinct ⊢
    have few := (linked_append.mp linked).1.length_le_size distinct.of_append_left
    rw [List.length_append, chainBound]
    exact Nat.succ_le_succ few

/-- A chain that ends is determined by where it starts. -/
theorem Linked.unique {others : List Address} {last : Value}
    (linked : heap.Linked cells following) (ends : following.isCons = false)
    (otherLinked : heap.Linked others last) (otherEnds : last.isCons = false)
    (same : firstOf cells following = firstOf others last) : cells = others := by
  induction cells generalizing others with
  | nil =>
      cases others with
      | nil => rfl
      | cons other others =>
          rw [firstOf] at same
          subst same
          cases ends
  | cons cell cells ih =>
      cases others with
      | nil =>
          rw [firstOf, firstOf] at same
          subst same
          cases otherEnds
      | cons other others =>
          cases same
          obtain ⟨link, rest⟩ := linked
          obtain ⟨otherLink, otherRest⟩ := otherLinked
          rw [ih rest otherRest (link.symm.trans otherLink)]

/-- A chain that ends does not come back to one of its cells. -/
theorem Linked.nodup (linked : heap.Linked cells following) (ends : following.isCons = false) :
    cells.Nodup := by
  induction cells with
  | nil => exact List.nodup_nil
  | cons cell cells ih =>
      refine List.nodup_cons.mpr ⟨fun again => ?_, ih linked.2⟩
      -- From its second occurrence on the cell starts the whole chain again, only shorter.
      obtain ⟨front, rest, split⟩ := List.append_of_mem again
      have later : heap.Linked (cell :: rest) following := by
        have whole := linked.2
        rw [split, linked_append] at whole
        exact whole.2
      have same := linked.unique ends later ends rfl
      rw [split] at same
      have lengths := congrArg List.length same
      simp only [List.length_cons, List.length_append] at lengths
      omega

/-- The value starts a chain that ends, or one that comes back to one of its cells after a
stem that may be empty. -/
inductive Shape (heap : Heap) : Value → Prop where
  | ended {cells : List Address} {following : Value} (linked : heap.Linked cells following)
      (ends : following.isCons = false) : Shape heap (firstOf cells following)
  | circular {stem cycle : List Address} {first : Address}
      (linked : heap.Linked (stem ++ first :: cycle) (.cons first))
      (distinct : (stem ++ first :: cycle).Nodup) :
      Shape heap (firstOf stem (.cons first))

/-- From any place on, a list that has not met a cell twice has a shape. -/
theorem shape_from (visited : List Address) (current : Value) (distinct : visited.Nodup)
    (linked : heap.Linked visited current) : heap.Shape (firstOf visited current) := by
  cases current with
  | cons cell =>
      -- All cells visited so far lead on, so there are no more of them than are in use.
      have few := linked.length_le_size distinct
      by_cases again : cell ∈ visited
      · obtain ⟨stem, cycle, rfl⟩ := List.append_of_mem again
        rw [firstOf_append]
        exact .circular linked distinct
      · have more : (visited ++ [cell]).Nodup := by
          rw [← List.concat_eq_append]
          exact distinct.concat again
        have further := shape_from (visited ++ [cell]) (heap.pair cell).cdr more
          (linked_append.mpr ⟨linked, rfl, trivial⟩)
        rwa [firstOf_append] at further
  | _ => exact .ended linked rfl
termination_by heap.pairs.size + 1 - visited.length
decreasing_by
  simp only [List.length_append, List.length_singleton]
  omega

/-- Every value has one of the two shapes. -/
theorem exists_shape (heap : Heap) (value : Value) : heap.Shape value :=
  shape_from [] value List.nodup_nil trivial

/-! ## Elements -/

/-- A chain of cells has their first fields as elements. -/
theorem Linked.chain (linked : heap.Linked cells following) (ends : following.isCons = false) :
    heap.Chain (firstOf cells following) (cells.map fun cell => (heap.pair cell).car)
      following := by
  induction cells with
  | nil => exact .done ends
  | cons cell cells ih =>
      have rest := ih linked.2
      rw [← linked.1] at rest
      exact .link cell rest

/-- Linked cells that end in `nil` have the cars of the cells as elements. -/
theorem Linked.elements (linked : heap.Linked cells following) (ends : following.isNil = true) :
    heap.elements (firstOf cells following) =
      .ok (cells.map fun cell => (heap.pair cell).car).toArray := by
  have last := isCons_of_isNil ends
  have few := linked.length_le_chainBound (linked.nodup last)
  exact elements_of_chain (linked.chain last) (by simpa using few) ends

/-! ## Positions -/

/-- The value starts a chain of the cells, which ends in a value that is not a cons. -/
structure Ended (heap : Heap) (list : Value) (cells : List Address) (following : Value) :
    Prop where
  starts : list = firstOf cells following
  linked : heap.Linked cells following
  ends : following.isCons = false

/-- The value starts a circular chain: a stem, which may be empty, and a cycle, each cell of
them once. -/
structure Circular (heap : Heap) (list : Value) (stem cycle : List Address) : Prop where
  starts : list = firstOf (stem ++ cycle) .nil
  linked : heap.Linked (stem ++ cycle) (firstOf cycle .nil)
  distinct : (stem ++ cycle).Nodup
  nonempty : cycle ≠ []

/-- Every list ends or is circular. -/
theorem ended_or_circular (heap : Heap) (list : Value) :
    (∃ cells following, heap.Ended list cells following) ∨
      ∃ stem cycle, heap.Circular list stem cycle := by
  cases heap.exists_shape list with
  | ended linked ends => exact .inl ⟨_, _, rfl, linked, ends⟩
  | @circular stem cycle first linked distinct =>
      exact .inr ⟨stem, first :: cycle, by simp, linked, distinct, by simp⟩

/-- What is left after some cells begins with the next of them. -/
theorem firstOf_drop {n : Nat} (within : n < cells.length) :
    firstOf (cells.drop n) following = .cons cells[n] := by
  rw [List.drop_eq_getElem_cons within, firstOf_cons]

/-- A walk along linked cells. -/
theorem Linked.iterate_next (linked : heap.Linked cells following) {n : Nat}
    (within : n ≤ cells.length) :
    heap.next^[n] (firstOf cells following) = firstOf (cells.drop n) following := by
  induction cells generalizing n with
  | nil =>
      obtain rfl := Nat.le_zero.mp within
      rfl
  | cons cell cells ih =>
      cases n with
      | zero => rfl
      | succ n =>
          rw [Function.iterate_succ_apply, firstOf_cons, next, linked.1]
          exact ih linked.2 (Nat.le_of_succ_le_succ within)

/-- Nothing comes after what is no cons. -/
theorem next_of_isCons_eq_false {value : Value} (ends : value.isCons = false) :
    heap.next value = .nil := by
  cases value with
  | cons cell => cases ends
  | _ => rfl

namespace Ended

variable {list : Value}

/-- After some steps, the rest of the cells is left. -/
theorem iterate_next (ended : heap.Ended list cells following) {n : Nat}
    (within : n ≤ cells.length) : heap.next^[n] list = firstOf (cells.drop n) following := by
  rw [ended.starts]
  exact ended.linked.iterate_next within

/-- As long as there are cells, each step leads to the next of them. -/
theorem iterate_next_of_lt (ended : heap.Ended list cells following) {n : Nat}
    (within : n < cells.length) : heap.next^[n] list = .cons cells[n] := by
  rw [ended.iterate_next (Nat.le_of_lt within), firstOf_drop within]

/-- After as many steps as there are cells, the list is over. -/
theorem iterate_next_length (ended : heap.Ended list cells following) :
    heap.next^[cells.length] list = following := by
  rw [ended.iterate_next (Nat.le_refl _), List.drop_length, firstOf_nil]

/-- Past its end a walk stays on `nil`. -/
theorem iterate_next_past (ended : heap.Ended list cells following) {n : Nat}
    (past : cells.length < n) : heap.next^[n] list = .nil := by
  obtain ⟨further, rfl⟩ := Nat.exists_eq_add_of_lt past
  have stays : heap.next .nil = .nil := rfl
  rw [Nat.add_right_comm, Nat.add_comm _ further, Function.iterate_add_apply,
    Function.iterate_succ_apply', ended.iterate_next_length, next_of_isCons_eq_false ended.ends,
    Function.iterate_fixed stays]

/-- The walk is at a cons exactly as long as there are cells. -/
theorem isCons_iff (ended : heap.Ended list cells following) (n : Nat) :
    (heap.next^[n] list).isCons = true ↔ n < cells.length := by
  obtain within | rfl | past := Nat.lt_trichotomy n cells.length
  · simp [ended.iterate_next_of_lt within, within]
  · simp [ended.iterate_next_length, ended.ends]
  · simp [ended.iterate_next_past past, Value.isCons, Nat.le_of_lt past]

/-- A walk along a chain that ends comes to no cell twice. -/
theorem ne_of_lt (ended : heap.Ended list cells following) {i j : Nat} (before : i < j)
    (onCell : (heap.next^[j] list).isCons = true) : heap.next^[i] list ≠ heap.next^[j] list := by
  have within := (ended.isCons_iff j).mp onCell
  have earlier : i < cells.length := Nat.lt_trans before within
  rw [ended.iterate_next_of_lt within, ended.iterate_next_of_lt earlier]
  intro same
  cases (ended.linked.nodup ended.ends).getElem_inj_iff.mp (Value.cons.inj same)
  exact Nat.lt_irrefl _ before

end Ended

namespace Circular

variable {list : Value} {stem cycle : List Address}

/-- A cycle has at least one cell. -/
theorem length_pos (circular : heap.Circular list stem cycle) : 0 < cycle.length :=
  List.length_pos_iff.mpr circular.nonempty

/-- A circular list begins with its stem, or with its cycle if it has none. -/
theorem firstOf_append_eq (circular : heap.Circular list stem cycle) (value : Value) :
    firstOf (stem ++ cycle) value = list := by
  rw [circular.starts]
  obtain ⟨first, rest, rfl⟩ := List.exists_cons_of_ne_nil circular.nonempty
  simp

/-- Up to the length of the list, each step leads to the next cell. -/
theorem iterate_next (circular : heap.Circular list stem cycle) {n : Nat}
    (within : n < (stem ++ cycle).length) : heap.next^[n] list = .cons (stem ++ cycle)[n] := by
  rw [← circular.firstOf_append_eq (firstOf cycle .nil),
    circular.linked.iterate_next (Nat.le_of_lt within), firstOf_drop within]

/-- After the stem a walk goes around the cycle. -/
theorem isPeriodicPt (circular : heap.Circular list stem cycle) :
    Function.IsPeriodicPt heap.next cycle.length (heap.next^[stem.length] list) := by
  have around : heap.next^[(stem ++ cycle).length] list = firstOf cycle .nil := by
    rw [← circular.firstOf_append_eq (firstOf cycle .nil),
      circular.linked.iterate_next (Nat.le_refl _), List.drop_length, firstOf_nil]
  have entry : heap.next^[stem.length] list = firstOf cycle .nil := by
    rw [← circular.firstOf_append_eq (firstOf cycle .nil),
      circular.linked.iterate_next (by simp), List.drop_left]
    obtain ⟨first, rest, rfl⟩ := List.exists_cons_of_ne_nil circular.nonempty
    simp
  rw [Function.IsPeriodicPt, Function.IsFixedPt, ← Function.iterate_add_apply, Nat.add_comm,
    ← List.length_append, around, entry]

/-- Where among its cells a walk is after a number of steps. -/
def place (stem cycle : List Address) (n : Nat) : Nat :=
  if n < stem.length then n else stem.length + (n - stem.length) % cycle.length

/-- Every step is at some cell of the list. -/
theorem place_lt (circular : heap.Circular list stem cycle) (n : Nat) :
    place stem cycle n < (stem ++ cycle).length := by
  have inCycle := Nat.mod_lt (n - stem.length) circular.length_pos
  rw [place, List.length_append]
  split <;> omega

/-- Walking around the cycle comes back to the same cells. -/
theorem iterate_next_place (circular : heap.Circular list stem cycle) (n : Nat) :
    heap.next^[place stem cycle n] list = heap.next^[n] list := by
  rw [place]
  split
  · rfl
  next past =>
    rw [Nat.add_comm, Function.iterate_add_apply,
      circular.isPeriodicPt.iterate_mod_apply, ← Function.iterate_add_apply,
      Nat.sub_add_cancel (Nat.le_of_not_lt past)]

/-- A walk along a circular chain is always on one of its cells. -/
theorem exists_mem (circular : heap.Circular list stem cycle) (n : Nat) :
    ∃ cell ∈ stem ++ cycle, heap.next^[n] list = .cons cell := by
  refine ⟨_, List.getElem_mem (circular.place_lt n), ?_⟩
  rw [← circular.iterate_next_place, circular.iterate_next (circular.place_lt n)]

/-- The walk around a circular list is always at a cons. -/
theorem isCons (circular : heap.Circular list stem cycle) (n : Nat) :
    (heap.next^[n] list).isCons = true := by
  obtain ⟨cell, -, here⟩ := circular.exists_mem n
  rw [here, Value.isCons_cons]

/-- A walk along a circular chain comes to a cell again exactly when the cell is on the cycle
and the steps in between lead around the cycle. -/
theorem eq_iff_of_lt (circular : heap.Circular list stem cycle) {i j : Nat} (before : i < j) :
    heap.next^[i] list = heap.next^[j] list ↔ stem.length ≤ i ∧ cycle.length ∣ j - i := by
  constructor
  · intro same
    rw [← circular.iterate_next_place i, ← circular.iterate_next_place j,
      circular.iterate_next (circular.place_lt i), circular.iterate_next (circular.place_lt j),
      Value.cons.injEq, circular.distinct.getElem_inj_iff, place, place] at same
    split at same
    · split at same <;> omega
    next past =>
      rw [if_neg (by omega)] at same
      have onCycle := Nat.le_of_not_lt past
      refine ⟨onCycle, ?_⟩
      have aligned := Nat.sub_mod_eq_zero_of_mod_eq (Nat.add_left_cancel same).symm
      rw [Nat.sub_sub_sub_cancel_right onCycle] at aligned
      exact Nat.dvd_of_mod_eq_zero aligned
  · rintro ⟨onCycle, around⟩
    have periodic : Function.IsPeriodicPt heap.next cycle.length (heap.next^[i] list) := by
      rw [← Nat.sub_add_cancel onCycle, Function.iterate_add_apply]
      exact circular.isPeriodicPt.apply_iterate _
    have back := periodic.trans_dvd around
    rw [Function.IsPeriodicPt, Function.IsFixedPt, ← Function.iterate_add_apply,
      Nat.sub_add_cancel (Nat.le_of_lt before)] at back
    exact back.symm

end Circular

/-- A heap with the list `(0 1 2)`, whose last cell leads back to the second. -/
def backToSecond : Heap where
  pairs := ⟨#[⟨.int 0, .cons 1⟩, ⟨.int 1, .cons 2⟩, ⟨.int 2, .cons 1⟩]⟩

/-- The list of the example leads from its last cons back to its second. -/
theorem circular_backToSecond : backToSecond.Circular (.cons 0) [0] [1, 2] where
  starts := rfl
  linked := ⟨rfl, rfl, rfl, trivial⟩
  distinct := by decide
  nonempty := by simp

end Heap

end ByteLisp
