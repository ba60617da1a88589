import ByteLisp.Primitive.Call
import ByteLisp.Proofs.CycleDetection

/-!
# Searching lists

A search looks at one cell of a list after the other until one of them gives an answer, and
watches for circular lists on its way. The watch cannot end a search before all cells have been
looked at, so the answer is that of the first cell that gives one. When no cell does, the search
comes to the end of the list, or it is ended by the watch. `Lists.searches_by_shape` says so of
`memq`, `member` and `assq`.
-/

namespace ByteLisp

open Value CycleWatch

namespace Heap

/-- A search from a cell on, without a bound: it ends with the answer after it has looked at so
many cells. -/
inductive Searches (heap : Heap) (list : Value) (test : Value → Value → Option Value) :
    CycleWatch → Value → Nat → Except Fault Value → Prop where
  | found {watch : CycleWatch} {cell : Address} {answer : Value}
      (answers : test (heap.pair cell).car (.cons cell) = some answer) :
      Searches heap list test watch (.cons cell) 1 (.ok answer)
  | circular {watch : CycleWatch} {cell : Address}
      (passed : test (heap.pair cell).car (.cons cell) = none)
      (met : watch.next? (heap.pair cell).cdr = none) :
      Searches heap list test watch (.cons cell) 1 (.error (.wrongType .listp list))
  | onward {watch moved : CycleWatch} {cell : Address} {looked : Nat}
      {answer : Except Fault Value}
      (passed : test (heap.pair cell).car (.cons cell) = none)
      (moves : watch.next? (heap.pair cell).cdr = some moved)
      (rest : Searches heap list test moved (heap.pair cell).cdr looked answer) :
      Searches heap list test watch (.cons cell) (looked + 1) answer
  | atEnd {watch : CycleWatch} {tail : Value} (ends : tail.isCons = false) :
      Searches heap list test watch tail 0
        (if tail.isNil then .ok .nil else .error (.wrongType .listp list))

variable {heap : Heap} {list : Value} {test : Value → Value → Option Value}
  {watch : CycleWatch} {tail : Value} {looked : Nat} {answer : Except Fault Value}

/-- The bounded search is the same, when its bound is large enough. -/
theorem findFrom_of_searches (searches : heap.Searches list test watch tail looked answer)
    {bound : Nat} (enough : looked ≤ bound) :
    heap.findFrom list test bound watch tail = answer := by
  induction searches generalizing bound with
  | found answers =>
      cases bound with
      | zero => cases enough
      | succ bound => simp only [findFrom, answers]
  | circular passed met =>
      cases bound with
      | zero => cases enough
      | succ bound => simp only [findFrom, passed, met]
  | onward passed moves rest ih =>
      cases bound with
      | zero => cases enough
      | succ bound =>
          rw [findFrom]
          simp only [passed, moves]
          exact ih (Nat.le_of_succ_le_succ enough)
  | @atEnd watch tail ends =>
      unfold findFrom
      split
      · cases ends
      · rfl

/-- What a cell gives as the answer to a search, if anything. -/
def gives (heap : Heap) (test : Value → Value → Option Value) (cell : Address) : Option Value :=
  test (heap.pair cell).car (.cons cell)

/-- A search that goes past cells that give nothing. -/
theorem Searches.along {n : Nat} (moved : CycleWatch.along heap list n = some watch)
    (passed : ∀ i < n, ∃ cell, heap.next^[i] list = .cons cell ∧ heap.gives test cell = none)
    (rest : heap.Searches list test watch (heap.next^[n] list) looked answer) :
    heap.Searches list test (.start list) list (n + looked) answer := by
  induction n generalizing watch looked with
  | zero =>
      cases moved
      rw [Nat.zero_add]
      exact rest
  | succ n ih =>
      obtain ⟨earlier, before, moves⟩ := Option.bind_eq_some_iff.mp moved
      obtain ⟨cell, here, nothing⟩ := passed n (Nat.lt_succ_self n)
      rw [Function.iterate_succ_apply', here] at moves rest
      have further : heap.Searches list test earlier (heap.next^[n] list) (looked + 1) answer := by
        rw [here]
        exact .onward nothing moves rest
      rw [Nat.add_right_comm, Nat.add_assoc]
      exact ih before (fun i earlier => passed i (Nat.lt_succ_of_lt earlier)) further

/-- A search along cells of which one gives an answer. -/
theorem searches_of_found {cells : List Address} {found : Value}
    (places : ∀ i (within : i < cells.length), heap.next^[i] list = .cons cells[i])
    (watched : ∀ i < cells.length, ∃ watch, CycleWatch.along heap list i = some watch)
    (gave : cells.findSome? (heap.gives test) = some found) :
    ∃ looked ≤ cells.length, heap.Searches list test (.start list) list looked (.ok found) := by
  obtain ⟨before, cell, behind, rfl, answers, nothing⟩ := List.findSome?_eq_some_iff.mp gave
  have within : before.length < (before ++ cell :: behind).length := by simp
  obtain ⟨watch, moved⟩ := watched before.length within
  have here : heap.next^[before.length] list = .cons cell := by
    rw [places _ within, List.getElem_append_right (Nat.le_refl _)]
    simp
  refine ⟨before.length + 1, within, Searches.along moved (fun i earlier => ?_) ?_⟩
  · refine ⟨before[i], ?_, nothing _ (List.getElem_mem earlier)⟩
    rw [places i (Nat.lt_trans earlier within), List.getElem_append_left earlier]
  · rw [here]
    exact .found answers

/-- A search of a list that ends. -/
theorem searches_of_ended {cells : List Address} {following : Value}
    (ended : heap.Ended list cells following) :
    ∃ looked ≤ cells.length, (cells.findSome? (heap.gives test) = none → looked = cells.length) ∧
      heap.Searches list test (.start list) list looked
        ((cells.findSome? (heap.gives test)).elim
          (if following.isNil then .ok .nil else .error (.wrongType .listp list)) .ok) := by
  cases gave : cells.findSome? (heap.gives test) with
  | some found =>
      obtain ⟨looked, few, searches⟩ :=
        searches_of_found (fun i within => ended.iterate_next_of_lt within)
          (fun i _ => along_of_ended ended i) gave
      exact ⟨looked, few, by simp, searches⟩
  | none =>
      obtain ⟨watch, moved⟩ := along_of_ended ended cells.length
      refine ⟨cells.length + 0, Nat.le_refl _, fun _ => rfl,
        Searches.along moved (fun i within => ?_) ?_⟩
      · exact ⟨_, ended.iterate_next_of_lt within,
          List.findSome?_eq_none_iff.mp gave _ (List.getElem_mem within)⟩
      · rw [ended.iterate_next_length]
        exact .atEnd ended.ends

/-- A search of a circular list. -/
theorem searches_of_circular {stem cycle : List Address}
    (circular : heap.Circular list stem cycle) :
    ∃ looked ≤ 3 * (stem ++ cycle).length,
      ((stem ++ cycle).findSome? (heap.gives test) = none → (stem ++ cycle).length ≤ looked) ∧
      heap.Searches list test (.start list) list looked
        (((stem ++ cycle).findSome? (heap.gives test)).elim
          (.error (.wrongType .listp list)) .ok) := by
  have late := add_le_detection stem.length cycle.length
  have soon := detection_le stem.length cycle.length
  rw [List.length_append]
  cases gave : (stem ++ cycle).findSome? (heap.gives test) with
  | some found =>
      obtain ⟨looked, few, searches⟩ :=
        searches_of_found (fun i within => circular.iterate_next within)
          (fun i within => exists_along_of_lt circular
            (Nat.lt_of_lt_of_le within (by simpa using late))) gave
      rw [List.length_append] at few
      exact ⟨looked, by omega, by simp, searches⟩
  | none =>
      have nothing : ∀ i, ∃ cell, heap.next^[i] list = .cons cell ∧
          heap.gives test cell = none := by
        intro i
        obtain ⟨cell, isIn, here⟩ := circular.exists_mem i
        exact ⟨cell, here, List.findSome?_eq_none_iff.mp gave cell isIn⟩
      obtain ⟨last, watch, cell, isLast, moved, here, met⟩ := exists_last_of_circular circular
      obtain ⟨_, same, passed⟩ := nothing last
      cases here.symm.trans same
      refine ⟨last + 1, by omega, fun _ => by omega, Searches.along moved (fun i _ => nothing i) ?_⟩
      rw [here]
      exact .circular passed met

/-! ## Answers by shape -/

/-- In a list that ends, the first match is found, or the end is judged. -/
theorem find_of_ended (test : Value → Value → Option Value) {cells : List Address}
    {following : Value} (ended : heap.Ended list cells following) :
    ∃ looked ≤ cells.length, (cells.findSome? (heap.gives test) = none → looked = cells.length) ∧
      heap.Searches list test (.start list) list looked (heap.find list test) ∧
      heap.find list test = (cells.findSome? (heap.gives test)).elim
        (if following.isNil then .ok .nil else .error (.wrongType .listp list)) .ok := by
  obtain ⟨looked, few, all, searches⟩ := searches_of_ended ended
  have short := ended.linked.length_le_chainBound (ended.linked.nodup ended.ends)
  have enough : looked ≤ heap.watchBound := by
    rw [watchBound]
    omega
  have found : heap.find list test = _ := findFrom_of_searches searches enough
  exact ⟨looked, few, all, found ▸ searches, found⟩

/-- In a circular list, the first match is found, or the list is refused. -/
theorem find_of_circular (test : Value → Value → Option Value) {stem cycle : List Address}
    (circular : heap.Circular list stem cycle) :
    ∃ looked ≤ 3 * (stem ++ cycle).length,
      ((stem ++ cycle).findSome? (heap.gives test) = none → (stem ++ cycle).length ≤ looked) ∧
      heap.Searches list test (.start list) list looked (heap.find list test) ∧
      heap.find list test = ((stem ++ cycle).findSome? (heap.gives test)).elim
        (.error (.wrongType .listp list)) .ok := by
  obtain ⟨looked, few, all, searches⟩ := searches_of_circular circular
  have short := circular.linked.length_le_chainBound circular.distinct
  have enough : looked ≤ heap.watchBound := by
    rw [watchBound]
    omega
  have found : heap.find list test = _ := findFrom_of_searches searches enough
  exact ⟨looked, few, all, found ▸ searches, found⟩

end Heap

namespace Lists

/-- The searches of lists. -/
inductive Search where
  | memq | member | assq
deriving DecidableEq, Repr

namespace Search

/-- The operation. -/
def run : Search → Heap → Value → Value → Except Fault Value
  | memq => Lists.memq
  | member => Lists.member
  | assq => Lists.assq

/-- The built-in function. -/
def builtIn : Search → Primitive
  | memq => .memq
  | member => .member
  | assq => .assq

/-- What a search answers for an element and the rest of the list from it on: that rest when
the element is identical or equal to what is wanted, or the element when it is a cons whose
first field is identical to what is wanted. -/
def answer? (search : Search) (heap : Heap) (wanted item tail : Value) : Option Value :=
  match search with
  | memq => if item.isEq wanted then some tail else none
  | member => if heap.equal item wanted then some tail else none
  | assq =>
    match item with
    | .cons cell => if (heap.pair cell).car.isEq wanted then some item else none
    | _ => none

/-- All three searches walk alike and differ in what they look for. -/
theorem run_eq_find (search : Search) (heap : Heap) (wanted list : Value) :
    search.run heap wanted list = heap.find list (search.answer? heap wanted) := by
  cases search <;> rfl

/-- The built-in functions are these searches, and change nothing. -/
theorem call_builtIn (search : Search) (wanted list : Value) (memory : Memory) :
    search.builtIn.call [wanted, list] memory = (search.run memory.heap wanted list, memory) := by
  cases search <;> rfl

end Search

open Heap

/-- Searching a list always comes to an end, whatever the heap: the search without a bound
does, and the answer is what it comes to. The memory stays as it is. Every value starts a chain
that ends or that is circular.
- Along a chain that ends the watch finds nothing. The answer is that of the first cell that
  gives one. If there is none, the search has looked at all cells once, and the answer is `nil`
  where the chain ends in `nil`, and else a fault that names the list.
- Along a circular chain the watch finds nothing before all cells have been passed. The answer
  is that of the first cell that gives one. If there is none, the search has looked at all
  cells, and the answer is a fault that names the list. In no case does it look at more than
  three times as many cells as there are. -/
theorem searches_by_shape (search : Search) (heap : Heap) (wanted list : Value) :
    (∀ env, search.builtIn.call [wanted, list] ⟨heap, env⟩ =
      (search.run heap wanted list, ⟨heap, env⟩)) ∧
    ((∃ cells following, heap.Ended list cells following) ∨
      ∃ stem cycle, heap.Circular list stem cycle) ∧
    (∀ cells following, heap.Ended list cells following →
      (∀ n, ∃ watch, CycleWatch.along heap list n = some watch) ∧
      ∃ looked ≤ cells.length,
        (cells.findSome? (heap.gives (search.answer? heap wanted)) = none →
          looked = cells.length) ∧
        heap.Searches list (search.answer? heap wanted) (.start list) list looked
          (search.run heap wanted list) ∧
        search.run heap wanted list =
          (cells.findSome? (heap.gives (search.answer? heap wanted))).elim
            (if following.isNil then .ok .nil else .error (.wrongType .listp list)) .ok) ∧
    ∀ stem cycle, heap.Circular list stem cycle →
      (∀ n, CycleWatch.along heap list n = none →
        ∀ cell ∈ stem ++ cycle, ∃ i < n, heap.next^[i] list = .cons cell) ∧
      ∃ looked ≤ 3 * (stem ++ cycle).length,
        ((stem ++ cycle).findSome? (heap.gives (search.answer? heap wanted)) = none →
          (stem ++ cycle).length ≤ looked) ∧
        heap.Searches list (search.answer? heap wanted) (.start list) list looked
          (search.run heap wanted list) ∧
        search.run heap wanted list =
          ((stem ++ cycle).findSome? (heap.gives (search.answer? heap wanted))).elim
            (.error (.wrongType .listp list)) .ok := by
  rw [search.run_eq_find]
  refine ⟨?_, heap.ended_or_circular list, ?_, ?_⟩
  · intro env
    rw [search.call_builtIn, search.run_eq_find]
  · intro cells following ended
    exact ⟨along_of_ended ended, find_of_ended _ ended⟩
  · intro stem cycle circular
    exact ⟨fun _ => passed_of_along_eq_none circular, find_of_circular _ circular⟩

/-- The last cell of a circular list is found, and what is in none of them is not. -/
theorem backToSecond_searched :
    Search.memq.run backToSecond (.int 2) (.cons 0) = .ok (.cons 2) ∧
      Search.memq.run backToSecond (.int 3) (.cons 0) = .error (.wrongType .listp (.cons 0)) := by
  obtain ⟨-, -, -, found⟩ := searches_by_shape .memq backToSecond (.int 2) (.cons 0)
  obtain ⟨-, -, -, missing⟩ := searches_by_shape .memq backToSecond (.int 3) (.cons 0)
  obtain ⟨-, _, -, -, -, answered⟩ := found [0] [1, 2] circular_backToSecond
  obtain ⟨-, _, -, -, -, failed⟩ := missing [0] [1, 2] circular_backToSecond
  exact ⟨answered, failed⟩

end Lists

end ByteLisp
