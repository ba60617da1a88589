import ByteLisp.Proofs.ListShapes
import Mathlib.Data.Nat.Log

/-!
# When a watch finds a chain circular

A watch is moved along with a walk and remembers the cons that the walk was on after 0, 1, 3,
7, ... steps. What it remembers after a number of steps depends on that number alone. From this
follows at which step it finds a chain circular. It never does so on a chain that ends. On a
circular one it does so when the remembered cons is on the cycle for the first time and the
cycle is short enough to come back to it in time: not before all cells have been passed, and
not later than after three times as many steps as there are cells.
-/

namespace ByteLisp

open Value

namespace CycleWatch

/-- The watch after so many steps of a walk from a list, unless it has found the list
circular by then. -/
def along (heap : Heap) (list : Value) : Nat → Option CycleWatch
  | 0 => some (start list)
  | n + 1 => (along heap list n).bind (·.next? (heap.next^[n + 1] list))

/-- The limit of a watch after so many steps: the largest power of two that is not larger than
the number of values that the walk has been on. -/
def limitAfter (n : Nat) : Nat :=
  2 ^ Nat.log 2 (n + 1)

/-- The limit is no larger than the number of steps, counted from one. -/
theorem limitAfter_le (n : Nat) : limitAfter n ≤ n + 1 :=
  Nat.pow_log_le_self 2 (Nat.succ_ne_zero n)

/-- Twice the limit is larger than the number of steps, counted from one. -/
theorem lt_two_mul_limitAfter (n : Nat) : n + 1 < 2 * limitAfter n := by
  have below := Nat.lt_pow_succ_log_self (b := 2) (by omega) (n + 1)
  rwa [Nat.pow_succ, Nat.mul_comm] at below

/-- The limit is the power of two that the number of steps has reached last. -/
theorem limitAfter_eq {n phase : Nat} (reached : 2 ^ phase ≤ n + 1)
    (within : n + 1 < 2 * 2 ^ phase) : limitAfter n = 2 ^ phase := by
  rw [limitAfter, Nat.log_eq_of_pow_le_of_lt_pow reached]
  rwa [Nat.pow_succ, Nat.mul_comm]

/-- The limit doubles when the steps have caught up with twice its value. -/
theorem limitAfter_succ (n : Nat) :
    limitAfter (n + 1) = if n + 2 = 2 * limitAfter n then 2 * limitAfter n else limitAfter n := by
  have reached := limitAfter_le n
  have within := lt_two_mul_limitAfter n
  have doubled : 2 * limitAfter n = 2 ^ (Nat.log 2 (n + 1) + 1) := by
    rw [Nat.pow_succ, Nat.mul_comm, limitAfter]
  -- The largest power of two changes only when the number is the next one.
  split
  next full =>
    rw [doubled]
    apply limitAfter_eq <;> omega
  next =>
    apply limitAfter_eq <;> rw [← limitAfter] <;> omega

/-- The watch after so many steps, if it has found nothing by then. -/
def afterSteps (heap : Heap) (list : Value) (n : Nat) : CycleWatch :=
  ⟨heap.next^[limitAfter n - 1] list, limitAfter n, n + 1 - limitAfter n⟩

variable {heap : Heap} {list : Value} {watch : CycleWatch} {n : Nat}

/-- One step of a watch: it finds the chain circular when it comes to the cons again that it
remembers. -/
theorem next?_afterSteps (heap : Heap) (list : Value) (n : Nat) :
    (afterSteps heap list n).next? (heap.next^[n + 1] list) =
      if (heap.next^[n + 1] list).isCons &&
          heap.next^[n + 1] list == heap.next^[limitAfter n - 1] list then none
      else some (afterSteps heap list (n + 1)) := by
  have reached := limitAfter_le n
  have moved : (if n + 1 - limitAfter n + 1 = limitAfter n then
        some ⟨heap.next^[n + 1] list, 2 * limitAfter n, 0⟩
      else some ⟨heap.next^[limitAfter n - 1] list, limitAfter n, n + 1 - limitAfter n + 1⟩) =
        some (afterSteps heap list (n + 1)) := by
    rw [afterSteps, limitAfter_succ]
    split
    next full =>
      have atLimit : 2 * limitAfter n = n + 2 := by omega
      rw [if_pos atLimit.symm, atLimit, Nat.sub_self]
      rfl
    next =>
      rw [if_neg (by omega), Nat.sub_add_comm reached]
  rw [next?, ← moved]
  rfl

/-- One more step of the watch is made with the next cons of the list. -/
theorem along_succ (moved : along heap list n = some watch) :
    along heap list (n + 1) = watch.next? (heap.next^[n + 1] list) := by
  rw [along, moved, Option.bind_some]

/-- What a watch remembers depends on the number of steps alone. -/
theorem eq_of_along (moved : along heap list n = some watch) :
    watch = afterSteps heap list n := by
  induction n generalizing watch with
  | zero =>
      cases moved
      rfl
  | succ n ih =>
      cases before : along heap list n with
      | none =>
          rw [along, before] at moved
          cases moved
      | some earlier =>
          rw [along_succ before, ih before, next?_afterSteps] at moved
          split at moved
          · cases moved
          · cases moved
            rfl

/-- The watch gives up exactly when it meets the cons that it remembers. -/
theorem along_succ_eq_none_iff (moved : along heap list n = some watch) :
    along heap list (n + 1) = none ↔
      (heap.next^[n + 1] list).isCons = true ∧
        heap.next^[limitAfter n - 1] list = heap.next^[n + 1] list := by
  rw [along_succ moved, eq_of_along moved, next?_afterSteps, eq_comm (b := heap.next^[n + 1] list),
    ite_eq_left_iff, ← beq_iff_eq (b := heap.next^[limitAfter n - 1] list), ← Bool.and_eq_true]
  simp only [reduceCtorEq, imp_false, not_not]

/-- On a chain that ends a watch finds nothing. -/
theorem along_of_ended {cells : List Address} {following : Value}
    (ended : heap.Ended list cells following) (n : Nat) :
    ∃ watch, along heap list n = some watch := by
  induction n with
  | zero => exact ⟨_, rfl⟩
  | succ n ih =>
      obtain ⟨watch, moved⟩ := ih
      refine Option.ne_none_iff_exists'.mp fun none => ?_
      obtain ⟨onCell, same⟩ := (along_succ_eq_none_iff moved).mp none
      have reached := limitAfter_le n
      exact ended.ne_of_lt (by omega) onCell same

/-! ## Circular chains -/

/-- The number of steps after which a watch finds a chain circular that has so many cells in
its stem and in its cycle. -/
def detection (stem cycle : Nat) : Nat :=
  2 ^ Nat.clog 2 (max (stem + 1) cycle) - 1 + cycle

/-- No cycle is noticed before the list has been walked once. -/
theorem add_le_detection (stem cycle : Nat) : stem + cycle ≤ detection stem cycle := by
  have large := Nat.le_pow_clog (b := 2) (by omega) (max (stem + 1) cycle)
  rw [detection]
  omega

/-- It is noticed within three times the length of the list. -/
theorem detection_le (stem cycle : Nat) : detection stem cycle ≤ 3 * (stem + cycle) := by
  rw [detection]
  by_cases single : max (stem + 1) cycle ≤ 1
  · rw [Nat.clog_of_right_le_one single]
    omega
  · have half := Nat.pow_pred_clog_lt_self (b := 2) (by omega) (Nat.lt_of_not_le single)
    have positive := Nat.clog_pos (b := 2) (by omega) (Nat.lt_of_not_le single)
    obtain ⟨phase, isNext⟩ := Nat.exists_eq_succ_of_ne_zero (Nat.ne_of_gt positive)
    rw [isNext] at half ⊢
    rw [Nat.pow_succ]
    simp only [Nat.pred_succ] at half
    omega

/-- Where the remembered cons is on the cycle and a multiple of the cycle's length behind, the
walk has gone at least as far as the step at which the watch finds the chain circular. -/
theorem detection_le_of_dvd {stem cycle n : Nat} (onCycle : stem ≤ limitAfter n - 1)
    (around : cycle ∣ n + 1 - (limitAfter n - 1)) : detection stem cycle ≤ n + 1 := by
  have reached := limitAfter_le n
  have within := lt_two_mul_limitAfter n
  have short : cycle ≤ n + 1 - (limitAfter n - 1) := Nat.le_of_dvd (by omega) around
  have earlier : Nat.clog 2 (max (stem + 1) cycle) ≤ Nat.log 2 (n + 1) := by
    refine Nat.clog_le_of_le_pow ?_
    rw [← limitAfter]
    omega
  have smaller : 2 ^ Nat.clog 2 (max (stem + 1) cycle) ≤ limitAfter n :=
    Nat.pow_le_pow_right (by omega) earlier
  rw [detection]
  omega

/-- At that step the remembered cons is on the cycle, and once around the cycle behind. -/
theorem dvd_of_eq_detection {stem cycle n : Nat} (positive : 0 < cycle)
    (here : n + 1 = detection stem cycle) :
    stem ≤ limitAfter n - 1 ∧ cycle ∣ n + 1 - (limitAfter n - 1) := by
  have large := Nat.le_pow_clog (b := 2) (by omega) (max (stem + 1) cycle)
  rw [detection] at here
  have limit : limitAfter n = 2 ^ Nat.clog 2 (max (stem + 1) cycle) := by
    apply limitAfter_eq <;> omega
  have once : n + 1 - (limitAfter n - 1) = cycle := by omega
  exact ⟨by omega, by rw [once]⟩

/-- On a circular chain a watch has found this out after so many steps and not before. -/
theorem along_of_circular {stem cycle : List Address} (circular : heap.Circular list stem cycle)
    (n : Nat) : along heap list n = none ↔ detection stem.length cycle.length ≤ n := by
  induction n with
  | zero =>
      have positive := circular.length_pos
      have later := add_le_detection stem.length cycle.length
      simp only [along, reduceCtorEq, false_iff]
      omega
  | succ n ih =>
      cases moved : along heap list n with
      | none =>
          have found := ih.mp moved
          simp only [along, moved, Option.bind_none, true_iff]
          omega
      | some watch =>
          have before : ¬ detection stem.length cycle.length ≤ n := by simp [← ih, moved]
          have reached := limitAfter_le n
          rw [along_succ_eq_none_iff moved, circular.eq_iff_of_lt (by omega)]
          simp only [circular.isCons, true_and]
          constructor
          · exact fun ⟨onCycle, around⟩ => detection_le_of_dvd onCycle around
          · exact fun found => dvd_of_eq_detection circular.length_pos (by omega)

/-- Up to the step at which it is noticed, the watch goes on. -/
theorem exists_along_of_lt {stem cycle : List Address}
    (circular : heap.Circular list stem cycle)
    (early : n < detection stem.length cycle.length) :
    ∃ watch, along heap list n = some watch := by
  refine Option.ne_none_iff_exists'.mp fun found => ?_
  exact Nat.not_lt_of_le ((along_of_circular circular n).mp found) early

/-- The walk has been on all cells when the watch finds a chain circular. -/
theorem passed_of_along_eq_none {stem cycle : List Address}
    (circular : heap.Circular list stem cycle) (found : along heap list n = none) :
    ∀ cell ∈ stem ++ cycle, ∃ i < n, heap.next^[i] list = .cons cell := by
  intro cell isIn
  obtain ⟨i, within, rfl⟩ := List.getElem_of_mem isIn
  refine ⟨i, ?_, circular.iterate_next within⟩
  have late := add_le_detection stem.length cycle.length
  have steps := (along_of_circular circular n).mp found
  rw [List.length_append] at within
  omega

/-- The last cell that a walk along a circular chain is on before the watch finds out. -/
theorem exists_last_of_circular {stem cycle : List Address}
    (circular : heap.Circular list stem cycle) :
    ∃ last watch cell, detection stem.length cycle.length = last + 1 ∧
      along heap list last = some watch ∧ heap.next^[last] list = .cons cell ∧
      watch.next? (heap.pair cell).cdr = none := by
  have late := add_le_detection stem.length cycle.length
  have positive := circular.length_pos
  obtain ⟨last, isLast⟩ := Nat.exists_eq_add_one_of_ne_zero
    (show detection stem.length cycle.length ≠ 0 by omega)
  have early : last < detection stem.length cycle.length := Nat.lt_of_succ_le isLast.ge
  obtain ⟨watch, moved⟩ := exists_along_of_lt circular early
  have found := (along_of_circular circular (last + 1)).mpr (Nat.le_of_eq isLast)
  obtain ⟨cell, -, here⟩ := circular.exists_mem last
  rw [along_succ moved, Function.iterate_succ_apply', here] at found
  exact ⟨last, watch, cell, isLast, moved, here, found⟩

end CycleWatch

end ByteLisp
