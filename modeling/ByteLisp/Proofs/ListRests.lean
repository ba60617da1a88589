import ByteLisp.Primitive.Call
import ByteLisp.Proofs.CycleDetection

/-!
# Rests of lists

`nthcdr` goes along a list for a number of steps that may be far larger than the list is long.
It stops where the list ends. On a circular list the watch ends the walk after a number of steps
that depends on the list alone, and not on how far the walk was to go.
`Lists.nthcdr_by_shape` says where it comes to on every list.
-/

namespace ByteLisp

open Value CycleWatch

namespace Heap

/-- A walk of so many steps along a list comes to the answer after the steps that it has really
taken. -/
inductive Drops (heap : Heap) (list : Value) :
    Nat → CycleWatch → Value → Nat → Except Fault Value → Prop where
  | counted {watch : CycleWatch} {tail : Value} : Drops heap list 0 watch tail 0 (.ok tail)
  | atNil {count : Nat} {watch : CycleWatch} {tail : Value} (isNil : tail.isNil = true) :
      Drops heap list (count + 1) watch tail 0 (.ok tail)
  | atAtom {count : Nat} {watch : CycleWatch} {tail : Value} (ends : tail.isCons = false)
      (other : tail.isNil = false) :
      Drops heap list (count + 1) watch tail 0 (.error (.wrongType .listp tail))
  | circular {count : Nat} {watch : CycleWatch} {cell : Address}
      (met : watch.next? (heap.pair cell).cdr = none) :
      Drops heap list (count + 1) watch (.cons cell) 1 (.error (.wrongType .listp list))
  | onward {count steps : Nat} {watch moved : CycleWatch} {cell : Address}
      {answer : Except Fault Value}
      (moves : watch.next? (heap.pair cell).cdr = some moved)
      (rest : Drops heap list count moved (heap.pair cell).cdr steps answer) :
      Drops heap list (count + 1) watch (.cons cell) (steps + 1) answer

variable {heap : Heap} {list : Value} {watch : CycleWatch} {tail : Value} {count steps : Nat}
  {answer : Except Fault Value}

/-- The function answers what the relation allows. -/
theorem dropFrom_of_drops (drops : heap.Drops list count watch tail steps answer) :
    heap.dropFrom list count watch tail = answer := by
  induction drops with
  | counted => rfl
  | atNil isNil => rw [dropFrom, if_pos isNil]
  | @atAtom count watch tail ends other =>
      have failed : heap.cdr tail = .error (.wrongType .listp tail) := by
        cases tail with
        | cons cell => cases ends
        | _ => simp [cdr, other]
      simp only [dropFrom, other, Bool.false_eq_true, if_false, failed]
  | circular met => simp [dropFrom, cdr, met]
  | onward moves rest ih =>
      rw [← ih]
      simp [dropFrom, cdr, moves]

/-- A walk that has taken its first steps. -/
theorem Drops.along {n : Nat} (moved : CycleWatch.along heap list n = some watch)
    (onCells : ∀ i < n, (heap.next^[i] list).isCons = true)
    (rest : heap.Drops list count watch (heap.next^[n] list) steps answer) :
    heap.Drops list (n + count) (.start list) list (n + steps) answer := by
  induction n generalizing watch count steps with
  | zero =>
      cases moved
      rw [Nat.zero_add, Nat.zero_add]
      exact rest
  | succ n ih =>
      obtain ⟨earlier, before, moves⟩ := Option.bind_eq_some_iff.mp moved
      have further : heap.Drops list (count + 1) earlier (heap.next^[n] list) (steps + 1)
          answer := by
        have onCell := onCells n (Nat.lt_succ_self n)
        rw [Function.iterate_succ_apply'] at moves rest
        cases here : heap.next^[n] list with
        | cons cell =>
            rw [here] at moves rest
            exact .onward moves rest
        | _ =>
            rw [here] at onCell
            cases onCell
      rw [Nat.add_right_comm, Nat.add_assoc, Nat.add_right_comm n 1, Nat.add_assoc n steps]
      exact ih before (fun i earlier => onCells i (Nat.lt_succ_of_lt earlier)) further

/-- The walk takes all its steps, when nothing is in the way. -/
theorem drops_of_along (moved : CycleWatch.along heap list count = some watch)
    (onCells : ∀ i < count, (heap.next^[i] list).isCons = true) :
    heap.Drops list count (.start list) list count (.ok (heap.next^[count] list)) := by
  have whole : heap.Drops list (count + 0) (.start list) list (count + 0) _ :=
    Drops.along moved onCells .counted
  exact whole

/-- Down a list that ends, the walk goes as far as the list does. -/
theorem drops_of_ended {cells : List Address} {following : Value}
    (ended : heap.Ended list cells following) (count : Nat) :
    ∃ steps ≤ cells.length, heap.Drops list count (.start list) list steps
      (if count ≤ cells.length then .ok (heap.next^[count] list)
        else if following.isNil then .ok following
        else .error (.wrongType .listp following)) := by
  split
  next within =>
    obtain ⟨watch, moved⟩ := along_of_ended ended count
    refine ⟨count, within, drops_of_along moved fun i early => ?_⟩
    exact (ended.isCons_iff i).mpr (Nat.lt_of_lt_of_le early within)
  next past =>
    obtain ⟨further, rfl⟩ := Nat.exists_eq_add_of_lt (Nat.lt_of_not_le past)
    obtain ⟨watch, moved⟩ := along_of_ended ended cells.length
    refine ⟨cells.length + 0, Nat.le_refl _, ?_⟩
    rw [Nat.add_assoc]
    refine Drops.along moved (fun i early => (ended.isCons_iff i).mpr early) ?_
    rw [ended.iterate_next_length]
    split
    next isNil => exact .atNil isNil
    next other => exact .atAtom ended.ends (by simpa using other)

/-- Around a circular list the walk goes on until the cycle is noticed. -/
theorem drops_of_circular {stem cycle : List Address}
    (circular : heap.Circular list stem cycle) (count : Nat) :
    ∃ steps ≤ detection stem.length cycle.length, heap.Drops list count (.start list) list steps
      (if count < detection stem.length cycle.length then .ok (heap.next^[count] list)
        else .error (.wrongType .listp list)) := by
  split
  next within =>
    obtain ⟨watch, moved⟩ := exists_along_of_lt circular within
    exact ⟨count, Nat.le_of_lt within, drops_of_along moved fun i _ => circular.isCons i⟩
  next past =>
    obtain ⟨last, watch, cell, isLast, moved, here, met⟩ := exists_last_of_circular circular
    obtain ⟨further, rfl⟩ := Nat.exists_eq_add_of_le (Nat.le_of_not_lt past)
    rw [isLast, Nat.add_right_comm, Nat.add_assoc]
    refine ⟨last + 1, Nat.le_refl _, Drops.along moved (fun i _ => circular.isCons i) ?_⟩
    rw [here]
    exact .circular met

end Heap

namespace Lists

open Heap

/-- A rest is found by going down the list, a negative number counting as zero. -/
theorem nthcdr_int (heap : Heap) (n : Int64) (list : Value) :
    nthcdr heap (.int n) list = heap.dropFrom list n.toInt.toNat (.start list) list :=
  rfl

/-- The rest of a list after a number of steps, which counts as none when it is negative, for
every heap and every number. The walk comes to the answer and leaves the memory as it is. Every
value starts a chain that ends or that is circular.
- Along a chain that ends the answer is the value that so many steps lead to. When there are
  not so many cells, it is the `nil` in which the chain ends, or else a fault that names the
  value in which it ends.
- For a circular chain there is a number of steps, no fewer than there are cells and no more
  than three times as many. With fewer steps than these the answer is the value that they lead
  to. Otherwise it is a fault that names the list, and the walk has taken no more steps than
  these. -/
theorem nthcdr_by_shape (heap : Heap) (list : Value) :
    (∀ n ≤ 0, nthcdr heap (.int n) list = .ok list) ∧
    (∀ n env, Primitive.nthcdr.call [.int n, list] ⟨heap, env⟩ =
      (nthcdr heap (.int n) list, ⟨heap, env⟩)) ∧
    ((∃ cells following, heap.Ended list cells following) ∨
      ∃ stem cycle, heap.Circular list stem cycle) ∧
    (∀ cells following, heap.Ended list cells following → ∀ n : Int64,
      ∃ steps ≤ cells.length,
        heap.Drops list n.toInt.toNat (.start list) list steps (nthcdr heap (.int n) list) ∧
        nthcdr heap (.int n) list =
          if n.toInt.toNat ≤ cells.length then .ok (heap.next^[n.toInt.toNat] list)
          else if following.isNil then .ok following
          else .error (.wrongType .listp following)) ∧
    ∀ stem cycle, heap.Circular list stem cycle →
      ∃ limit, stem.length + cycle.length ≤ limit ∧ limit ≤ 3 * (stem.length + cycle.length) ∧
        ∀ n : Int64, ∃ steps ≤ limit,
          heap.Drops list n.toInt.toNat (.start list) list steps (nthcdr heap (.int n) list) ∧
          nthcdr heap (.int n) list =
            if n.toInt.toNat < limit then .ok (heap.next^[n.toInt.toNat] list)
            else .error (.wrongType .listp list) := by
  refine ⟨?_, fun _ _ => rfl, heap.ended_or_circular list, ?_, ?_⟩
  · intro n negative
    have none : n.toInt.toNat = 0 := Int.toNat_of_nonpos (Int64.le_iff_toInt_le.mp negative)
    rw [nthcdr_int, none, dropFrom]
  · intro cells following ended n
    obtain ⟨steps, few, drops⟩ := drops_of_ended ended n.toInt.toNat
    have answered := dropFrom_of_drops drops
    rw [nthcdr_int, answered]
    exact ⟨steps, few, drops, rfl⟩
  · intro stem cycle circular
    refine ⟨detection stem.length cycle.length, add_le_detection _ _, detection_le _ _, ?_⟩
    intro n
    obtain ⟨steps, few, drops⟩ := drops_of_circular circular n.toInt.toNat
    have answered := dropFrom_of_drops drops
    rw [nthcdr_int, answered]
    exact ⟨steps, few, drops, rfl⟩

/-- Two steps along a circular list of three cells lead to the last of them, and the largest
number of steps is a fault. -/
theorem backToSecond_nthcdr :
    nthcdr backToSecond (.int 2) (.cons 0) = .ok (.cons 2) ∧
      nthcdr backToSecond (.int Int64.maxValue) (.cons 0) =
        .error (.wrongType .listp (.cons 0)) := by
  obtain ⟨-, -, -, -, circular⟩ := nthcdr_by_shape backToSecond (.cons 0)
  obtain ⟨limit, enough, few, answers⟩ := circular [0] [1, 2] circular_backToSecond
  obtain ⟨-, -, -, near⟩ := answers 2
  obtain ⟨-, -, -, far⟩ := answers Int64.maxValue
  simp only [List.length_cons, List.length_nil] at enough few
  have small : (2 : Int64).toInt.toNat = 2 := by decide
  have large : Int64.maxValue.toInt.toNat = 2 ^ 63 - 1 := by decide
  rw [small, if_pos (by omega)] at near
  rw [large, if_neg (by omega)] at far
  exact ⟨near, far⟩

end Lists

end ByteLisp
