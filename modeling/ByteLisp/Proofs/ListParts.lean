import ByteLisp.Proofs.ListShapes

/-!
# Taking lists apart

To take a list apart a walk goes along it and is followed by a second one at half the speed.
The second walk is always behind the first on a chain that ends, so the two meet on a circular
one only. There they are on the same cell after a number of steps that is even, leads past the
stem and is twice a multiple of the length of the cycle: at the latest when the first walk has
taken twice as many steps as there are cells. `Heap.parts_by_shape` says what comes of it.
-/

namespace ByteLisp.Heap

open Value

/-- Collecting the elements of a chain, without a bound: it comes to the outcome after so many
steps. -/
inductive Collects (heap : Heap) :
    Value → Value → Array Value → Nat → Option (Array Value × Value) → Prop where
  | ended {slow tail : Value} {items : Array Value} (ends : tail.isCons = false) :
      Collects heap slow tail items 0 (some (items, tail))
  | met {slow : Value} {cell : Address} {items : Array Value}
      (even : (items.size + 1) % 2 = 0) (onCell : (heap.pair cell).cdr.isCons = true)
      (same : heap.next slow = (heap.pair cell).cdr) :
      Collects heap slow (.cons cell) items 1 none
  | both {slow : Value} {cell : Address} {items : Array Value} {steps : Nat}
      {outcome : Option (Array Value × Value)} (even : (items.size + 1) % 2 = 0)
      (apart : ¬ ((heap.pair cell).cdr.isCons = true ∧ heap.next slow = (heap.pair cell).cdr))
      (rest : Collects heap (heap.next slow) (heap.pair cell).cdr
        (items.push (heap.pair cell).car) steps outcome) :
      Collects heap slow (.cons cell) items (steps + 1) outcome
  | first {slow : Value} {cell : Address} {items : Array Value} {steps : Nat}
      {outcome : Option (Array Value × Value)} (odd : (items.size + 1) % 2 ≠ 0)
      (rest : Collects heap slow (heap.pair cell).cdr (items.push (heap.pair cell).car) steps
        outcome) :
      Collects heap slow (.cons cell) items (steps + 1) outcome

variable {heap : Heap} {list slow tail : Value} {items : Array Value} {steps bound : Nat}
  {outcome : Option (Array Value × Value)}

/-- Collecting with a bound is the same, when the bound is large enough. -/
theorem collect?_of_collects (collects : heap.Collects slow tail items steps outcome)
    (enough : steps ≤ bound) : heap.collect? bound slow tail items = outcome := by
  induction collects generalizing bound with
  | @ended slow tail items ends =>
      unfold collect?
      split
      · cases ends
      · rfl
  | met even onCell same =>
      cases bound with
      | zero => cases enough
      | succ bound => simp [collect?, even, onCell, same]
  | both even apart rest ih =>
      cases bound with
      | zero => cases enough
      | succ bound =>
          rw [collect?, ← ih (Nat.le_of_succ_le_succ enough)]
          simp only [Array.size_push, even, if_true]
          rw [if_neg (mt isCons_and_isEq_iff.mp apart)]
  | first odd rest ih =>
      cases bound with
      | zero => cases enough
      | succ bound =>
          rw [collect?, ← ih (Nat.le_of_succ_le_succ enough)]
          simp only [Array.size_push, odd, if_false]

/-- What collecting with a bound finds is found without one. -/
theorem collects_of_collect? {found : Array Value × Value}
    (collected : heap.collect? bound slow tail items = some found) :
    ∃ steps ≤ bound, heap.Collects slow tail items steps (some found) := by
  fun_induction collect? heap bound slow tail items with
  | case1 => cases collected
  | case2 => cases collected
  | case3 slow items cell bound pair pushed even behind apart ih =>
      obtain ⟨steps, few, rest⟩ := ih collected
      exact ⟨steps + 1, Nat.succ_le_succ few, .both (by simpa [pushed] using even)
        (mt isCons_and_isEq_iff.mpr apart) rest⟩
  | case4 slow items cell bound pair pushed odd ih =>
      obtain ⟨steps, few, rest⟩ := ih collected
      exact ⟨steps + 1, Nat.succ_le_succ few, .first (by simpa [pushed] using odd) rest⟩
  | case5 bound slow tail items atEnd =>
      cases collected
      refine ⟨0, Nat.zero_le _, .ended ?_⟩
      cases tail with
      | cons cell => exact absurd rfl (atEnd cell)
      | _ => rfl

/-! ## Circular lists -/

section Circular

variable {stem cycle : List Address}

/-- One step of two walks along a circular chain, of which the first has taken `n` steps: they
meet, or they go on. -/
theorem Circular.collects_step (circular : heap.Circular list stem cycle) {n further : Nat}
    (size : items.size = n)
    (rest : ¬ ((n + 1) % 2 = 0 ∧ heap.next^[(n + 1) / 2] list = heap.next^[n + 1] list) →
      ∀ more : Array Value, more.size = n + 1 → ∃ steps ≤ further,
        heap.Collects (heap.next^[(n + 1) / 2] list) (heap.next^[n + 1] list) more steps none) :
    ∃ steps ≤ further + 1,
      heap.Collects (heap.next^[n / 2] list) (heap.next^[n] list) items steps none := by
  obtain ⟨cell, -, here⟩ := circular.exists_mem n
  have link : (heap.pair cell).cdr = heap.next^[n + 1] list := by
    rw [Function.iterate_succ_apply', here, next]
  have collected : (items.push (heap.pair cell).car).size = n + 1 := by simp [size]
  rw [here]
  by_cases even : (n + 1) % 2 = 0
  · have behind : heap.next (heap.next^[n / 2] list) = heap.next^[(n + 1) / 2] list := by
      rw [← Function.iterate_succ_apply' heap.next]
      congr 2
      omega
    by_cases same : heap.next^[(n + 1) / 2] list = heap.next^[n + 1] list
    · refine ⟨1, by omega, .met (by rwa [size]) ?_ (by rw [behind, link, same])⟩
      rw [link]
      exact circular.isCons (n + 1)
    · obtain ⟨steps, few, collects⟩ := rest (fun met => same met.2) _ collected
      refine ⟨steps + 1, Nat.succ_le_succ few, .both (by rwa [size]) ?_ ?_⟩
      · rw [link, behind]
        exact fun met => same met.2
      · rwa [link, behind]
  · obtain ⟨steps, few, collects⟩ := rest (fun met => even met.1) _ collected
    refine ⟨steps + 1, Nat.succ_le_succ few, .first (by rwa [size]) ?_⟩
    have behind : (n + 1) / 2 = n / 2 := by omega
    rwa [link, ← behind]

/-- Two walks that are to meet after so many steps do so, or have done so before. -/
theorem Circular.collects_of_meeting (circular : heap.Circular list stem cycle)
    {meeting n left : Nat} (same : heap.next^[meeting] list = heap.next^[2 * meeting] list)
    (ahead : 2 * meeting = n + left + 1) (size : items.size = n) :
    ∃ steps ≤ left + 1,
      heap.Collects (heap.next^[n / 2] list) (heap.next^[n] list) items steps none := by
  induction left generalizing n items with
  | zero =>
      have half : (n + 1) / 2 = meeting := by omega
      rw [ahead, Nat.add_zero] at same
      refine circular.collects_step size fun apart => absurd ⟨by omega, ?_⟩ apart
      rw [half, same]
  | succ left ih =>
      refine circular.collects_step size fun _ more collected => ?_
      exact ih (by omega) collected

/-- A circular list turns out to be one. -/
theorem Circular.collects (circular : heap.Circular list stem cycle) :
    ∃ steps ≤ 2 * (stem ++ cycle).length, heap.Collects list list #[] steps none := by
  have positive := circular.length_pos
  -- The first multiple of the cycle's length that lies past the stem.
  let meeting := cycle.length * (stem.length / cycle.length + 1)
  have divides : cycle.length ∣ meeting := Nat.dvd_mul_right _ _
  have quotient := Nat.div_add_mod stem.length cycle.length
  have remainder := Nat.mod_lt stem.length positive
  have past : stem.length < meeting ∧ meeting ≤ stem.length + cycle.length := by
    simp only [meeting, Nat.mul_add, Nat.mul_one]
    omega
  have same : heap.next^[meeting] list = heap.next^[2 * meeting] list := by
    refine (circular.eq_iff_of_lt (by omega)).mpr ⟨by omega, ?_⟩
    rwa [Nat.two_mul, Nat.add_sub_cancel]
  obtain ⟨left, isLeft⟩ := Nat.exists_eq_add_one_of_ne_zero (show 2 * meeting ≠ 0 by omega)
  obtain ⟨steps, few, collects⟩ :=
    circular.collects_of_meeting same (by rw [isLeft, Nat.zero_add]) (Array.size_empty)
  refine ⟨steps, ?_, collects⟩
  rw [List.length_append]
  omega

/-- A circular list has no parts. -/
theorem parts?_of_circular (circular : heap.Circular list stem cycle) :
    heap.parts? list = none := by
  obtain ⟨steps, few, collects⟩ := circular.collects
  have short := circular.linked.length_le_chainBound circular.distinct
  exact collect?_of_collects collects (by omega)

end Circular

/-! ## Lists that end -/

/-- The parts of a list that ends are its elements and what follows its last cons. -/
theorem parts?_of_ended {cells : List Address} {following : Value}
    (ended : heap.Ended list cells following) :
    heap.parts? list = some ((cells.map fun cell => (heap.pair cell).car).toArray, following) := by
  have short := ended.linked.length_le_chainBound (ended.linked.nodup ended.ends)
  rw [ended.starts]
  exact parts?_of_chain (ended.linked.chain ended.ends) (by simpa using short)

/-- A new list has the items and the tail that it was made of. -/
theorem parts?_listWithTail (heap : Heap) (items : List Value) {tail : Value}
    (ends : tail.isCons = false) :
    (heap.listWithTail items tail).2.parts? (heap.listWithTail items tail).1 =
      some (items.toArray, tail) := by
  have chain := chain_listWithTail (.refl (heap.listWithTail items tail).2) (.done ends)
  rw [List.append_nil] at chain
  refine parts?_of_chain chain ?_
  rw [chainBound, size_pairs_listWithTail]
  omega

/-! ## Parts and elements by shape -/

/-- Taking a list apart comes to an end with or without a bound. -/
theorem exists_collects (heap : Heap) (value : Value) :
    ∃ steps ≤ 2 * heap.chainBound, heap.Collects value value #[] steps (heap.parts? value) := by
  cases parts : heap.parts? value with
  | some found => exact collects_of_collect? parts
  | none =>
      obtain ⟨cells, following, ended⟩ | ⟨stem, cycle, circular⟩ := heap.ended_or_circular value
      · rw [parts?_of_ended ended] at parts
        cases parts
      · obtain ⟨steps, few, collects⟩ := circular.collects
        have short := circular.linked.length_le_chainBound circular.distinct
        exact ⟨steps, by omega, collects⟩

/-- Only circular lists have no parts. -/
theorem parts?_eq_none_iff {value : Value} :
    heap.parts? value = none ↔ ∃ stem cycle, heap.Circular value stem cycle := by
  constructor
  · intro none
    obtain ⟨cells, following, ended⟩ | circular := heap.ended_or_circular value
    · rw [parts?_of_ended ended] at none
      cases none
    · exact circular
  · rintro ⟨stem, cycle, circular⟩
    exact parts?_of_circular circular

/-- A list has its elements if it ends in `nil`; otherwise it is refused. -/
theorem elements_of_ended {cells : List Address} {following : Value}
    (ended : heap.Ended list cells following) :
    heap.elements list = if following.isNil
      then .ok (cells.map fun cell => (heap.pair cell).car).toArray
      else .error (.wrongType .listp list) := by
  simp only [elements, parts?_of_ended ended]

/-- Elements are found exactly of lists that end in `nil`. -/
theorem elements_eq_ok_iff {value : Value} {items : Array Value} :
    heap.elements value = .ok items ↔
      ∃ cells following, heap.Ended value cells following ∧ following.isNil = true ∧
        items = (cells.map fun cell => (heap.pair cell).car).toArray := by
  constructor
  · intro succeeded
    obtain ⟨cells, following, ended⟩ | ⟨stem, cycle, circular⟩ := heap.ended_or_circular value
    · rw [elements_of_ended ended] at succeeded
      split at succeeded
      next isNil =>
        cases succeeded
        exact ⟨cells, following, ended, isNil, rfl⟩
      next => cases succeeded
    · rw [elements, parts?_of_circular circular] at succeeded
      cases succeeded
  · rintro ⟨cells, following, ended, isNil, rfl⟩
    rw [elements_of_ended ended, if_pos isNil]

/-- All other values are refused alike. -/
theorem elements_eq_error {value : Value} (improper : ∀ items, heap.elements value ≠ .ok items) :
    heap.elements value = .error (.wrongType .listp value) := by
  unfold elements at improper ⊢
  split
  next items tail parts =>
    split
    next isNil => exact absurd (by simp [parts, isNil]) (improper items)
    next => rfl
  next => rfl

/-- Taking a list apart always comes to an end, whatever the heap: it does without a bound, and
what it comes to is the answer. Every value starts a chain that ends or that is circular.
- There is no answer exactly when the chain is circular.
- Otherwise the answer has the first fields of the cells in order, and the value in which the
  chain ends.
- The elements of a value are given exactly when its chain ends in `nil`, and are the first
  fields of the cells. Otherwise there is a fault that names the value.
- A new list has the items and the tail that it was made of. -/
theorem parts_by_shape (heap : Heap) (value : Value) :
    (∃ steps, heap.Collects value value #[] steps (heap.parts? value)) ∧
    ((∃ cells following, heap.Ended value cells following) ∨
      ∃ stem cycle, heap.Circular value stem cycle) ∧
    (heap.parts? value = none ↔ ∃ stem cycle, heap.Circular value stem cycle) ∧
    (∀ cells following, heap.Ended value cells following →
      heap.parts? value =
        some ((cells.map fun cell => (heap.pair cell).car).toArray, following)) ∧
    (∀ items, heap.elements value = .ok items ↔
      ∃ cells following, heap.Ended value cells following ∧ following.isNil = true ∧
        items = (cells.map fun cell => (heap.pair cell).car).toArray) ∧
    ((∀ items, heap.elements value ≠ .ok items) →
      heap.elements value = .error (.wrongType .listp value)) ∧
    ∀ items tail, tail.isCons = false →
      (heap.listWithTail items tail).2.parts? (heap.listWithTail items tail).1 =
        some (items.toArray, tail) := by
  obtain ⟨steps, -, collects⟩ := heap.exists_collects value
  exact ⟨⟨steps, collects⟩, heap.ended_or_circular value, parts?_eq_none_iff,
    fun _ _ => parts?_of_ended, fun _ => elements_eq_ok_iff, elements_eq_error,
    fun items _ => heap.parts?_listWithTail items⟩

/-- A circular list has no parts, and a list that is made of two items and an integer has
these. -/
theorem backToSecond_parts :
    backToSecond.parts? (.cons 0) = none ∧
      (backToSecond.listWithTail [.int 3, .int 4] (.int 5)).2.parts? (.cons 4) =
        some (#[.int 3, .int 4], .int 5) := by
  obtain ⟨-, -, circular, -, -, -, made⟩ := parts_by_shape backToSecond (.cons 0)
  exact ⟨circular.mpr ⟨[0], [1, 2], circular_backToSecond⟩, made [.int 3, .int 4] (.int 5) rfl⟩

end ByteLisp.Heap
