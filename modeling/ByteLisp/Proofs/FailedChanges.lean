import ByteLisp.Proofs.BuiltInAgreement
import ByteLisp.Proofs.ListReversal

/-!
# Changes in place that fail

An operation that changes conses or vectors in place and fails leaves the heap as it was, because
it looks for what is wrong before it changes anything. Reversing a list is the exception: it
turns the links around on its way to the end, and finds only there that the list does not end in
`nil`. `Heap.failed_change_by_kind` says when a failed change has changed the heap, and how.
-/

namespace ByteLisp

open Value

namespace HeapM

variable {α β : Type}

/-- Where the operation fails, it leaves the heap as it was. -/
def FailsUnchanged (operation : HeapM α) : Prop :=
  ∀ heap fault after, operation heap = (.error fault, after) → after = heap

/-- A refusal changes nothing. -/
theorem failsUnchanged_throw (fault : Fault) : FailsUnchanged (throw fault : HeapM α) :=
  fun _ _ _ failed => (congrArg Prod.snd failed).symm

/-- A change comes last, and does not fail. -/
theorem failsUnchanged_change (mutation : Heap → Heap) (value : α) :
    FailsUnchanged (do change mutation; return value) := by
  intro heap fault after failed
  cases failed

/-- Looking changes nothing, so only what follows it matters. -/
theorem failsUnchanged_look_bind {question : Heap → Except Fault α} {next : α → HeapM β}
    (further : ∀ answer, FailsUnchanged (next answer)) :
    FailsUnchanged (look question >>= next) := by
  intro heap fault after failed
  rw [run_bind] at failed
  cases asked : question heap with
  | ok answer =>
      simp only [look, asked] at failed
      exact further answer heap fault after failed
  | error cause =>
      simp only [look, asked] at failed
      exact (congrArg Prod.snd failed).symm

end HeapM

open HeapM

namespace Lists

/-- The car is set only in a cons. -/
theorem failsUnchanged_setcar (cell value : Value) : FailsUnchanged (setcar cell value) := by
  unfold setcar
  split
  · exact failsUnchanged_change _ _
  · exact failsUnchanged_throw _

/-- The cdr is set only in a cons. -/
theorem failsUnchanged_setcdr (cell value : Value) : FailsUnchanged (setcdr cell value) := by
  unfold setcdr
  split
  · exact failsUnchanged_change _ _
  · exact failsUnchanged_throw _

/-- The whole of the first list has been walked before the one link is changed. -/
theorem failsUnchanged_nconc (first second : Value) : FailsUnchanged (nconc first second) := by
  intro heap fault after failed
  rw [nconc_eq] at failed
  split at failed <;> cases failed <;> rfl

/-- Reversing anything but a list with a cell in it. -/
theorem failsUnchanged_nreverse {sequence : Value} (noCell : sequence.isCons = false) :
    FailsUnchanged (nreverse sequence) := by
  intro heap fault after failed
  unfold nreverse at failed
  split at failed
  · cases failed
  · have stops : heap.relink (2 * heap.chainBound) sequence .nil = (sequence, .nil, heap) :=
      Heap.relink_of_turns (.stop noCell) (Nat.zero_le _)
    rw [stops] at failed
    exact (congrArg Prod.snd failed).symm

end Lists

/-- An element is set only at a place that has been found in the array. -/
theorem Sequences.failsUnchanged_aset (array index value : Value) :
    FailsUnchanged (aset array index value) := by
  unfold aset
  split
  · exact failsUnchanged_look_bind fun _ => failsUnchanged_change _ _
  · exact failsUnchanged_throw _

namespace Heap

/-- Reversing a list fails when it does not end in `nil`, and has turned around its links by
then. -/
theorem turned_of_failed_nreverse {heap after : Heap} {cell : Address} {fault : Fault}
    (failed : Lists.nreverse (.cons cell) heap = (.error fault, after)) :
    ∃ cells following, heap.Ended (.cons cell) cells following ∧ following.isNil = false ∧
      fault = .wrongType .listp (.cons cell) ∧ after.Linked cells.reverse .nil ∧
      heap.Relinks cells after := by
  obtain ⟨cells, following, ended⟩ | ⟨stem, cycle, circular⟩ := heap.ended_or_circular (.cons cell)
  · have noVector : ∀ address, firstOf cells following ≠ .vector address := by
      simp [← ended.starts]
    have answered := Lists.nreverse_of_ended noVector ended.linked ended.ends
    rw [← ended.starts, failed] at answered
    split at answered
    · cases answered
    next other =>
      cases answered
      exact ⟨cells, following, ended, by simpa using other, rfl,
        linked_turned (ended.linked.nodup ended.ends) heap .nil, heap.relinks_turned cells .nil⟩
  · obtain ⟨first, rest, rfl⟩ := List.exists_cons_of_ne_nil circular.nonempty
    have starts : firstOf stem (.cons first) = .cons cell := by simpa using circular.starts.symm
    have answered := Lists.nreverse_of_circular circular.linked circular.distinct
    rw [starts, failed] at answered
    cases answered

/-- The first cell of a list that was to be reversed in vain is linked to nothing any more. -/
theorem ne_of_failed_nreverse {heap after : Heap} {cell : Address} {fault : Fault}
    (failed : Lists.nreverse (.cons cell) heap = (.error fault, after)) :
    after.pair cell ≠ heap.pair cell := by
  obtain ⟨cells, following, ended, other, -, linked, -⟩ := turned_of_failed_nreverse failed
  cases cells with
  | nil =>
      obtain rfl : .cons cell = following := ended.starts
      cases ended.ends
  | cons first rest =>
      obtain rfl : cell = first := Value.cons.inj ended.starts
      rw [List.reverse_cons, linked_append] at linked
      have cut : (after.pair cell).cdr = .nil := linked.2.1
      intro same
      rw [same, ended.linked.1] at cut
      cases rest with
      | nil =>
          obtain rfl : following = .nil := cut
          cases other
      | cons second rest => cases cut

/-- The operations that change conses and vectors in place. -/
inductive Change where
  | nreverse (sequence : Value)
  | nconc (first second : Value)
  | setcar (cell value : Value)
  | setcdr (cell value : Value)
  | aset (array index value : Value)
deriving DecidableEq, Repr

/-- What the change does. -/
def Change.run : Change → HeapM Value
  | nreverse sequence => Lists.nreverse sequence
  | nconc first second => Lists.nconc first second
  | setcar cell value => Lists.setcar cell value
  | setcdr cell value => Lists.setcdr cell value
  | aset array index value => Sequences.aset array index value

/-- A change that fails leaves every object as it was, unless it was to reverse a list of one
cell or more. Reversing one fails only when it does not end in `nil`, and its cells are linked
in the other order by then, the first of them to `nil`; nothing else has changed. -/
theorem failed_change_by_kind (change : Change) (heap after : Heap) (fault : Fault)
    (failed : change.run heap = (.error fault, after)) :
    (after = heap ↔ ∀ cell, change ≠ .nreverse (.cons cell)) ∧
    ∀ cell, change = .nreverse (.cons cell) →
      after.pair cell ≠ heap.pair cell ∧
      ∃ cells following, heap.Ended (.cons cell) cells following ∧ following.isNil = false ∧
        fault = .wrongType .listp (.cons cell) ∧ after.Linked cells.reverse .nil ∧
        heap.Relinks cells after := by
  refine ⟨⟨?_, ?_⟩, ?_⟩
  · rintro rfl cell rfl
    exact ne_of_failed_nreverse failed rfl
  · intro otherwise
    cases change with
    | nreverse sequence =>
        refine Lists.failsUnchanged_nreverse ?_ heap fault after failed
        cases sequence with
        | cons cell => exact absurd rfl (otherwise cell)
        | _ => rfl
    | nconc first second => exact Lists.failsUnchanged_nconc first second heap fault after failed
    | setcar cell value => exact Lists.failsUnchanged_setcar cell value heap fault after failed
    | setcdr cell value => exact Lists.failsUnchanged_setcdr cell value heap fault after failed
    | aset array index value =>
        exact Sequences.failsUnchanged_aset array index value heap fault after failed
  · rintro cell rfl
    exact ⟨ne_of_failed_nreverse failed, turned_of_failed_nreverse failed⟩

/-- Joining a circular list to another fails and changes nothing. -/
theorem backToSecond_unchanged :
    ∃ fault after, Change.run (.nconc (.cons 0) .nil) backToSecond = (.error fault, after) ∧
      after = backToSecond := by
  refine ⟨.wrongType .listp (.cons 0), backToSecond, rfl, ?_⟩
  exact (failed_change_by_kind (.nconc (.cons 0) .nil) backToSecond _ _ rfl).1.mpr (by simp)

/-- A heap with the list `(1 2 . 3)`. -/
def dottedTwo : Heap where
  pairs := ⟨#[⟨.int 1, .cons 1⟩, ⟨.int 2, .int 3⟩]⟩

/-- Reversing `(1 2 . 3)` fails, and the first cell is cut off from the second. -/
theorem dottedTwo_cut :
    ∃ fault after, Change.run (.nreverse (.cons 0)) dottedTwo = (.error fault, after) ∧
      (dottedTwo.pair 0).cdr = .cons 1 ∧ (after.pair 0).cdr = .nil :=
  ⟨_, _, rfl, rfl, rfl⟩

end Heap

end ByteLisp
