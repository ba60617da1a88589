import ByteLisp.Proofs.BuiltInAgreement
import ByteLisp.Proofs.CycleDetection
import ByteLisp.Proofs.ListParts
import ByteLisp.Proofs.ListReversal
import Mathlib.Data.List.Forall2

/-!
# Joining lists in place

Joining a list to a value walks along the list to its last cell, under a watch for circular
lists, and links this cell to the value. Nothing else changes. Joining any number of lists goes
through them from the last one to the first: what has been joined so far becomes the end of the
list before it. When no cell is in two of the lists, the cells of all of them come to stand one
behind the other. `Lists.nconc_by_shape` says so for every heap.
-/

namespace ByteLisp

open Value CycleWatch

namespace Heap

/-- A walk from a cell to the last one of its chain, without a bound: after so many steps it is
there, or the watch has found the chain circular. -/
inductive Follows (heap : Heap) : CycleWatch → Address → Nat → Option Address → Prop where
  | atLast {watch : CycleWatch} {cell : Address} (ends : (heap.pair cell).cdr.isCons = false) :
      Follows heap watch cell 0 (some cell)
  | circular {watch : CycleWatch} {cell next : Address} (link : (heap.pair cell).cdr = .cons next)
      (met : watch.next? (.cons next) = none) : Follows heap watch cell 1 none
  | onward {watch moved : CycleWatch} {cell next : Address} {steps : Nat}
      {last : Option Address} (link : (heap.pair cell).cdr = .cons next)
      (moves : watch.next? (.cons next) = some moved)
      (rest : Follows heap moved next steps last) : Follows heap watch cell (steps + 1) last

variable {heap : Heap} {first cell : Address} {cells : List Address} {following : Value}
  {watch : CycleWatch} {steps : Nat} {last : Option Address}

/-- The bounded walk is the same, when its bound is large enough. -/
theorem lastFrom?_of_follows (follows : heap.Follows watch cell steps last) {bound : Nat}
    (enough : steps ≤ bound) : heap.lastFrom? bound watch cell = last := by
  induction follows generalizing bound with
  | @atLast watch cell ends =>
      unfold lastFrom?
      split
      next link =>
        rw [link] at ends
        cases ends
      next => rfl
  | circular link met =>
      cases bound with
      | zero => cases enough
      | succ bound =>
          rw [lastFrom?, link]
          simp only [met]
  | onward link moves rest ih =>
      cases bound with
      | zero => cases enough
      | succ bound =>
          rw [lastFrom?, link]
          simp only [moves]
          exact ih (Nat.le_of_succ_le_succ enough)

/-- What goes on with a cons is itself a cons. -/
theorem exists_cell_of_next {value : Value} (link : heap.next value = .cons cell) :
    ∃ before, value = .cons before ∧ (heap.pair before).cdr = .cons cell := by
  cases value with
  | cons before => exact ⟨before, rfl, link⟩
  | _ => cases link

/-- A walk that goes on from where it is after some steps. -/
theorem Follows.along {n : Nat} (moved : CycleWatch.along heap (.cons first) n = some watch)
    (here : heap.next^[n] (.cons first) = .cons cell)
    (rest : heap.Follows watch cell steps last) :
    heap.Follows (.start (.cons first)) first (n + steps) last := by
  induction n generalizing watch cell steps with
  | zero =>
      cases moved
      cases here
      rwa [Nat.zero_add]
  | succ n ih =>
      obtain ⟨earlier, before, moves⟩ := Option.bind_eq_some_iff.mp moved
      rw [here] at moves
      rw [Function.iterate_succ_apply'] at here
      obtain ⟨previous, there, link⟩ := exists_cell_of_next here
      rw [Nat.add_right_comm, Nat.add_assoc]
      exact ih before there (.onward link moves rest)

/-- Along a list that ends, the walk finds its last cons. -/
theorem follows_of_ended (ended : heap.Ended (.cons first) cells following) :
    ∃ last, cells.getLast? = some last ∧
      heap.Follows (.start (.cons first)) first (cells.length - 1) (some last) := by
  obtain rfl | ⟨front, last, rfl⟩ := cells.eq_nil_or_concat
  · have starts := ended.starts
    have ends := ended.ends
    rw [firstOf_nil] at starts
    subst starts
    cases ends
  · rw [List.concat_eq_append] at ended ⊢
    have within : front.length < (front ++ [last]).length := by simp
    obtain ⟨watch, moved⟩ := along_of_ended ended front.length
    have here : heap.next^[front.length] (.cons first) = .cons last := by
      rw [ended.iterate_next_of_lt within]
      simp
    have link : (heap.pair last).cdr = following := (linked_append.mp ended.linked).2.1
    refine ⟨last, by simp, ?_⟩
    have walk := Follows.along moved here (.atLast (by rw [link, ended.ends]))
    simpa using walk

/-- Along a circular list the walk finds the cycle, within three times the length of the list. -/
theorem follows_of_circular {stem cycle : List Address}
    (circular : heap.Circular (.cons first) stem cycle) :
    ∃ steps ≤ 3 * (stem ++ cycle).length,
      heap.Follows (.start (.cons first)) first steps none := by
  obtain ⟨n, watch, cell, isLast, moved, here, met⟩ := exists_last_of_circular circular
  have soon := detection_le stem.length cycle.length
  obtain ⟨next, -, onward⟩ := circular.exists_mem (n + 1)
  have link : (heap.pair cell).cdr = .cons next := by
    rw [Function.iterate_succ_apply', here] at onward
    exact onward
  rw [link] at met
  refine ⟨n + 1, ?_, Follows.along moved here (.circular link met)⟩
  rw [List.length_append]
  omega

/-! ## The last cell -/

/-- A list that ends has its last cons as its end. -/
theorem listEnd_of_ended (ended : heap.Ended (.cons first) cells following) {last : Address}
    (isLast : cells.getLast? = some last) : heap.listEnd (.cons first) = .last last := by
  obtain ⟨other, isOther, follows⟩ := follows_of_ended ended
  cases isLast.symm.trans isOther
  have short := ended.linked.length_le_chainBound (ended.linked.nodup ended.ends)
  have found : heap.last? first = some last := lastFrom?_of_follows follows (by
    rw [watchBound]
    omega)
  simp only [listEnd, found]

/-- A circular list has no end. -/
theorem listEnd_of_circular {stem cycle : List Address}
    (circular : heap.Circular (.cons first) stem cycle) :
    heap.listEnd (.cons first) = .circular := by
  obtain ⟨steps, few, follows⟩ := follows_of_circular circular
  have short := circular.linked.length_le_chainBound circular.distinct
  have found : heap.last? first = none := lastFrom?_of_follows follows (by
    rw [watchBound]
    omega)
  simp only [listEnd, found]

/-- Linking the last cell to another value keeps the chain up to it. -/
theorem Linked.setCdr_last {front : List Address} {last : Address}
    (linked : heap.Linked (front ++ [last]) following) (apart : last ∉ front) (second : Value) :
    (heap.setCdr last second).Linked (front ++ [last]) second := by
  obtain ⟨links, -⟩ := linked_append.mp linked
  refine linked_append.mpr ⟨links.congr fun cell isIn => ?_, ?_, trivial⟩
  · rw [pair_setCdr, if_neg]
    rintro rfl
    exact apart isIn
  · rw [pair_setCdr, if_pos rfl]
    rfl

/-- The value is a list of the cells that ends in `nil`. -/
def Proper (heap : Heap) (list : Value) (cells : List Address) : Prop :=
  ∃ following, heap.Ended list cells following ∧ following.isNil = true

/-- A list is still there when links have been changed elsewhere. -/
theorem Proper.congr {list : Value} {after : Heap} (proper : heap.Proper list cells)
    (same : ∀ cell ∈ cells, after.pair cell = heap.pair cell) : after.Proper list cells := by
  obtain ⟨following, ⟨starts, linked, ends⟩, isNil⟩ := proper
  refine ⟨following, ⟨starts, linked.congr fun cell isIn => ?_, ends⟩, isNil⟩
  rw [same cell isIn]

end Heap

open Heap

namespace Lists

variable {heap : Heap} {first : Address} {second : Value} {cells : List Address}
  {following : Value}

/-- Joining sets one link: that of the last cons. -/
theorem nconc_of_ended (ended : heap.Ended (.cons first) cells following) {last : Address}
    (isLast : cells.getLast? = some last) :
    nconc (.cons first) second heap = (.ok (.cons first), heap.setCdr last second) := by
  simp only [nconc_eq, listEnd_of_ended ended isLast]

/-- A circular list is refused, and nothing is changed. -/
theorem nconc_of_circular {stem cycle : List Address}
    (circular : heap.Circular (.cons first) stem cycle) :
    nconc (.cons first) second heap = (.error (.wrongType .listp (.cons first)), heap) := by
  simp only [nconc_eq, listEnd_of_circular circular]

/-- Nothing is joined to the empty list. -/
theorem nconc_of_isNil {list : Value} (isNil : list.isNil = true) :
    nconc list second heap = (.ok second, heap) := by
  have noCells : heap.listEnd list = .empty := by
    unfold listEnd
    split
    next => cases isNil
    next => rw [if_pos isNil]
  simp only [nconc_eq, noCells]

/-- Joining a list to the cells of another one puts its own cells before them. -/
theorem nconc_of_proper {list : Value} {further : List Address} (proper : heap.Proper list cells)
    (linked : heap.Linked further .nil) (apart : cells.Disjoint further) :
    ∃ after, nconc list (firstOf further .nil) heap =
        (.ok (firstOf (cells ++ further) .nil), after) ∧
      after.Linked (cells ++ further) .nil ∧ heap.Relinks cells after := by
  obtain ⟨following, ended, isNil⟩ := proper
  obtain rfl | ⟨front, last, rfl⟩ := cells.eq_nil_or_concat
  · obtain rfl : list = following := ended.starts
    exact ⟨heap, nconc_of_isNil isNil, linked, fun _ => rfl, fun _ _ => rfl, rfl, rfl, rfl⟩
  · rw [List.concat_eq_append] at ended apart ⊢
    have distinct := ended.linked.nodup ended.ends
    have lastApart : last ∉ front := fun isIn =>
      List.disjoint_of_nodup_append distinct isIn List.mem_cons_self
    have starts : ∀ behind, list = firstOf (front ++ [last]) behind := by
      intro behind
      rw [ended.starts]
      cases front <;> rfl
    obtain ⟨first, rfl⟩ : ∃ first, list = .cons first := by
      rw [starts .nil]
      cases front <;> exact ⟨_, rfl⟩
    have isLast : (front ++ [last]).getLast? = some last := by simp
    refine ⟨heap.setCdr last (firstOf further .nil), ?_, ?_, ?_⟩
    · rw [nconc_of_ended ended isLast, firstOf_append, ← starts]
    · refine linked_append.mpr
        ⟨ended.linked.setCdr_last lastApart _, linked.congr fun cell isIn => ?_⟩
      rw [pair_setCdr, if_neg]
      rintro rfl
      exact apart (by simp) isIn
    · exact (heap.relinks_setCdr last _).mono (by simp)

end Lists

namespace Primitive

variable {heap : Heap} {lists : List Value} {cellLists : List (List Address)}

/-- The function takes any number of lists. -/
theorem call_nconc (lists : List Value) : nconc.call lists = Action.onHeap (nconcAll lists) := by
  have accepted : nconc.arity.accepts lists.length = true := by simp [arity, Arity.accepts]
  rw [call, if_pos accepted]
  rfl

/-- What has been joined so far becomes the end of the list before it. -/
theorem nconcAll_cons (list : Value) (lists : List Value) :
    nconcAll (list :: lists) = (do let joined ← nconcAll lists; Lists.nconc list joined) := by
  simp [nconcAll]

/-- Lists that share no cell are joined to one list of all their cells. -/
theorem nconcAll_of_proper (proper : List.Forall₂ heap.Proper lists cellLists)
    (apart : cellLists.Pairwise List.Disjoint) :
    ∃ after, nconcAll lists heap = (.ok (firstOf cellLists.flatten .nil), after) ∧
      after.Linked cellLists.flatten .nil ∧ heap.Relinks cellLists.flatten after := by
  induction proper with
  | nil => exact ⟨heap, rfl, trivial, fun _ => rfl, fun _ _ => rfl, rfl, rfl, rfl⟩
  | @cons list cells lists cellLists properFirst _ ih =>
      obtain ⟨apartFirst, apartRest⟩ := List.pairwise_cons.mp apart
      obtain ⟨middle, joined, linked, relinks⟩ := ih apartRest
      have disjoint : cells.Disjoint cellLists.flatten := by
        intro cell isIn isLater
        obtain ⟨others, isOne, isInOthers⟩ := List.mem_flatten.mp isLater
        exact apartFirst others isOne isIn isInOthers
      -- Joining the others has not touched the cells of this list.
      have kept : middle.Proper list cells :=
        properFirst.congr fun cell isIn => relinks.others cell (disjoint isIn)
      obtain ⟨after, added, linkedAll, relinksFirst⟩ := Lists.nconc_of_proper kept linked disjoint
      refine ⟨after, ?_, linkedAll, ?_⟩
      · rw [nconcAll_cons, run_bind, joined]
        exact added
      · exact (relinks.mono (List.subset_append_right _ _)).trans
          (relinksFirst.mono (List.subset_append_left _ _))

/-- The first cell of all is the one of the first list that is not `nil`. -/
theorem firstOf_flatten (proper : List.Forall₂ heap.Proper lists cellLists) :
    firstOf cellLists.flatten .nil = (lists.find? fun list => !list.isNil).getD .nil := by
  induction proper with
  | nil => rfl
  | @cons list cells lists cellLists properFirst _ ih =>
      obtain ⟨following, ended, isNil⟩ := properFirst
      rw [List.flatten_cons, firstOf_append]
      cases cells with
      | nil =>
          obtain rfl : list = following := ended.starts
          rw [List.find?_cons_of_neg (by simp [isNil]), ← ih]
          rfl
      | cons cell cells =>
          obtain rfl : list = .cons cell := ended.starts
          rfl

end Primitive

namespace Lists

/-- Joining a list to a value always comes to an end, whatever the heap: the walk to the last
cell does without a bound. Every value starts a chain that ends or that is circular.
- Where the chain of a cons ends, the answer is that cons, and of all fields in the heap the
  second one of the last cell is changed, to the value, and no other.
- Where it is circular the answer is a fault that names the cons, and nothing is changed. The walk
  has made no more than three times as many steps as there are cells.
- Any number of lists that end in `nil`, no two of them with a cell in common, are joined to one.
  It is the first of them that is not `nil`, or `nil` if there is none, and has the elements that
  they had before, one list after the other. Only links of their cells are changed. -/
theorem nconc_by_shape (heap : Heap) (first : Address) (second : Value) :
    ((∃ cells following, heap.Ended (.cons first) cells following) ∨
      ∃ stem cycle, heap.Circular (.cons first) stem cycle) ∧
    (∀ cells following, heap.Ended (.cons first) cells following →
      ∃ last, cells.getLast? = some last ∧
        heap.Follows (.start (.cons first)) first (cells.length - 1) (some last) ∧
        nconc (.cons first) second heap = (.ok (.cons first), heap.setCdr last second) ∧
        ((heap.setCdr last second).pair last).cdr = second ∧
        heap.Relinks [last] (heap.setCdr last second)) ∧
    (∀ stem cycle, heap.Circular (.cons first) stem cycle →
      nconc (.cons first) second heap = (.error (.wrongType .listp (.cons first)), heap) ∧
      ∃ steps ≤ 3 * (stem ++ cycle).length,
        heap.Follows (.start (.cons first)) first steps none) ∧
    ∀ lists cellLists, List.Forall₂ heap.Proper lists cellLists →
      cellLists.Pairwise List.Disjoint →
      List.Forall₂ (fun list cells =>
        heap.elements list = .ok (cells.map fun cell => (heap.pair cell).car).toArray)
        lists cellLists ∧
      ∃ joined after, (∀ env, Primitive.nconc.call lists ⟨heap, env⟩ = (.ok joined, ⟨after, env⟩)) ∧
        joined = (lists.find? fun list => !list.isNil).getD .nil ∧
        after.elements joined =
          .ok (cellLists.flatMap fun cells => cells.map fun cell => (heap.pair cell).car).toArray ∧
        heap.Relinks cellLists.flatten after := by
  refine ⟨heap.ended_or_circular _, ?_, ?_, ?_⟩
  · intro cells following ended
    obtain ⟨last, isLast, follows⟩ := follows_of_ended ended
    refine ⟨last, isLast, follows, nconc_of_ended ended isLast, ?_, heap.relinks_setCdr last second⟩
    rw [pair_setCdr, if_pos rfl]
  · intro stem cycle circular
    exact ⟨nconc_of_circular circular, follows_of_circular circular⟩
  · intro lists cellLists proper apart
    refine ⟨proper.imp fun list cells isProper => ?_, ?_⟩
    · obtain ⟨following, ended, isNil⟩ := isProper
      rw [elements_of_ended ended, if_pos isNil]
    · obtain ⟨after, joined, linked, relinks⟩ := Primitive.nconcAll_of_proper proper apart
      refine ⟨_, after, fun env => ?_, Primitive.firstOf_flatten proper, ?_, relinks⟩
      · simp only [Primitive.call_nconc, Action.onHeap, joined]
      · rw [linked.elements rfl, List.map_flatten]
        simp only [relinks.car]
        rfl

/-- A heap with the lists `(1 2)` and `(3)`, of which the second ends in the symbol `nil`. -/
def twoApart : Heap where
  pairs := ⟨#[⟨.int 1, .cons 1⟩, ⟨.int 2, .nil⟩, ⟨.int 3, .symbol .nil⟩]⟩

/-- They are joined, with both forms of `nil` before and between them, and so is the first of them
to a number. A circular list is not. -/
theorem twoApart_joined :
    (∃ after, (∀ env, Primitive.nconc.call [.nil, .cons 0, .symbol .nil, .cons 2] ⟨twoApart, env⟩ =
        (.ok (.cons 0), ⟨after, env⟩)) ∧
      after.elements (.cons 0) = .ok #[.int 1, .int 2, .int 3]) ∧
    nconc (.cons 0) (.int 5) twoApart = (.ok (.cons 0), twoApart.setCdr 1 (.int 5)) ∧
    nconc (.cons 0) (.int 5) backToSecond =
      (.error (.wrongType .listp (.cons 0)), backToSecond) := by
  refine ⟨?_, ?_, ?_⟩
  · obtain ⟨-, -, -, joining⟩ := nconc_by_shape twoApart 0 .nil
    have proper : List.Forall₂ twoApart.Proper [.nil, .cons 0, .symbol .nil, .cons 2]
        [[], [0, 1], [], [2]] :=
      .cons ⟨.nil, ⟨rfl, trivial, rfl⟩, rfl⟩ <|
      .cons ⟨.nil, ⟨rfl, ⟨rfl, rfl, trivial⟩, rfl⟩, rfl⟩ <|
      .cons ⟨.symbol .nil, ⟨rfl, trivial, rfl⟩, rfl⟩ <|
      .cons ⟨.symbol .nil, ⟨rfl, ⟨rfl, trivial⟩, rfl⟩, rfl⟩ .nil
    have apart : ([[], [0, 1], [], [2]] : List (List Address)).Pairwise List.Disjoint := by
      simp
    obtain ⟨-, joined, after, called, rfl, elements, -⟩ := joining _ _ proper apart
    exact ⟨after, called, elements⟩
  · obtain ⟨-, linking, -⟩ := nconc_by_shape twoApart 0 (.int 5)
    have ended : twoApart.Ended (.cons 0) [0, 1] .nil := ⟨rfl, ⟨rfl, rfl, trivial⟩, rfl⟩
    obtain ⟨last, isLast, -, linked, -⟩ := linking _ _ ended
    cases isLast
    exact linked
  · obtain ⟨-, -, refused, -⟩ := nconc_by_shape backToSecond 0 (.int 5)
    exact (refused [0] [1, 2] circular_backToSecond).1

end Lists

end ByteLisp
