import ByteLisp.Heap.Action

/-!
# Chains of conses

A list is a chain of conses linked by their second fields. The chain ends in a
value that is not a cons, or it comes back to one of its own conses. A walk
along a chain finds out that it is circular when it meets a cons again: either
one that it remembers, or one that follows behind at half the speed. A chain
longer than the number of conses in the heap has come back, so there is a bound
on the steps that such a walk takes.
-/

namespace ByteLisp

namespace Heap

/-- A walk that takes this many steps and is still on a cons is on a circular
chain. -/
def chainBound (heap : Heap) : Nat :=
  heap.pairs.size + 1

/-- The first field of a list; `nil` has `nil`. -/
def car (heap : Heap) (value : Value) : Except Fault Value :=
  match value with
  | .cons cell => .ok (heap.pair cell).car
  | _ => if value.isNil then .ok .nil else .error (.wrongType .listp value)

/-- The second field of a list; `nil` has `nil`. -/
def cdr (heap : Heap) (value : Value) : Except Fault Value :=
  match value with
  | .cons cell => .ok (heap.pair cell).cdr
  | _ => if value.isNil then .ok .nil else .error (.wrongType .listp value)

/-- What a cons is linked to; `nil` for anything else. -/
def next (heap : Heap) : Value → Value
  | .cons cell => (heap.pair cell).cdr
  | _ => .nil

/-- Collects the elements of a chain, with the value in which it ends, in at most
`bound` steps. With every second element `slow` moves on as well; where `tail`
meets it, the chain is circular. -/
def collect? (heap : Heap) (bound : Nat) (slow tail : Value) (items : Array Value) :
    Option (Array Value × Value) :=
  match tail with
  | .cons cell =>
    match bound with
    | 0 => none
    | bound + 1 =>
      let pair := heap.pair cell
      let items := items.push pair.car
      if items.size % 2 = 0 then
        let slow := heap.next slow
        if pair.cdr.isCons && slow.isEq pair.cdr then none
        else collect? heap bound slow pair.cdr items
      else collect? heap bound slow pair.cdr items
  | _ => some (items, tail)

/-- The elements of a chain and the value in which it ends; none for a circular
chain. -/
def parts? (heap : Heap) (value : Value) : Option (Array Value × Value) :=
  heap.collect? (2 * heap.chainBound) value value #[]

/-- The elements of a list that ends in `nil`. -/
def elements (heap : Heap) (value : Value) : Except Fault (Array Value) :=
  match heap.parts? value with
  | some (items, tail) => if tail.isNil then .ok items else .error (.wrongType .listp value)
  | none => .error (.wrongType .listp value)

end Heap

/-- A watch for circular chains that remembers one cons and compares every cons
of a walk with it, moving on after 1, 2, 4, ... steps. -/
structure CycleWatch where
  remembered : Value
  limit : Nat := 1
  steps : Nat := 0

namespace CycleWatch

/-- The watch for a walk that starts at the value. -/
def start (list : Value) : CycleWatch :=
  ⟨list, 1, 0⟩

/-- Moves on to the next value of a walk; none when it is the remembered cons. -/
def next? (watch : CycleWatch) (tail : Value) : Option CycleWatch :=
  if tail.isCons && tail == watch.remembered then none
  else if watch.steps + 1 = watch.limit then some ⟨tail, 2 * watch.limit, 0⟩
  else some { watch with steps := watch.steps + 1 }

end CycleWatch

namespace Heap

/-- A walk under a watch has ended before it takes more steps than this. -/
def watchBound (heap : Heap) : Nat :=
  3 * heap.chainBound

/-- Looks along the conses from `tail`, in at most `bound` steps, for the first
one that `test` answers; `list` is the list at fault when the walk does not end
in `nil` or when the watch finds the list circular. -/
def findFrom (heap : Heap) (list : Value) (test : Value → Value → Option Value) (bound : Nat)
    (watch : CycleWatch) (tail : Value) : Except Fault Value :=
  match tail with
  | .cons cell =>
    match bound with
    | 0 => .error (.wrongType .listp list)
    | bound + 1 =>
      let pair := heap.pair cell
      match test pair.car tail with
      | some found => .ok found
      | none =>
        match watch.next? pair.cdr with
        | none => .error (.wrongType .listp list)
        | some watch => findFrom heap list test bound watch pair.cdr
  | _ => if tail.isNil then .ok .nil else .error (.wrongType .listp list)

/-- The first answer that `test` gives along a list, each time for an element
and the rest of the list from it on; `nil` when there is none. -/
def find (heap : Heap) (list : Value) (test : Value → Value → Option Value) :
    Except Fault Value :=
  heap.findFrom list test heap.watchBound (.start list) list

/-- The last cons of a chain, in at most `bound` steps; none when the watch finds
the chain circular. -/
def lastFrom? (heap : Heap) (bound : Nat) (watch : CycleWatch) (cell : Address) :
    Option Address :=
  match (heap.pair cell).cdr with
  | .cons next =>
    match bound with
    | 0 => none
    | bound + 1 =>
      match watch.next? (.cons next) with
      | none => none
      | some watch => lastFrom? heap bound watch next
  | _ => some cell

/-- The last cons of the chain that starts at `cell`; none for a circular one. -/
def last? (heap : Heap) (cell : Address) : Option Address :=
  heap.lastFrom? heap.watchBound (.start (.cons cell)) cell

/-- The last cons of a chain has no further cons behind it. -/
theorem isCons_cdr_of_lastFrom? {heap : Heap} {bound : Nat} {watch : CycleWatch}
    {cell last : Address} (found : heap.lastFrom? bound watch cell = some last) :
    (heap.pair last).cdr.isCons = false := by
  fun_induction lastFrom? heap bound watch cell with
  | case1 => cases found
  | case2 => cases found
  | case3 watch cell next links bound further moved ih => exact ih found
  | case4 bound watch cell ends =>
      cases found
      cases tail : (heap.pair last).cdr with
      | cons next => exact absurd tail (ends next)
      | _ => rfl

/-- Which cons is the last of a chain does not depend on what comes behind it. -/
theorem lastFrom?_setCdr {heap : Heap} {bound : Nat} {watch : CycleWatch}
    {cell last : Address} (ends : (heap.pair last).cdr.isCons = false) :
    (heap.setCdr last .nil).lastFrom? bound watch cell = heap.lastFrom? bound watch cell := by
  have link : ∀ {cell next}, (heap.pair cell).cdr = .cons next →
      ((heap.setCdr last .nil).pair cell).cdr = .cons next := by
    intro cell next links
    have different : cell ≠ last := by
      rintro rfl
      rw [links] at ends
      cases ends
    rw [pair_setCdr, if_neg different, links]
  fun_induction lastFrom? heap bound watch cell with
  | case1 watch cell next links => rw [lastFrom?, link links]
  | case2 watch cell next links bound met =>
      rw [lastFrom?, link links]
      simp only [met]
  | case3 watch cell next links bound further moved ih =>
      rw [lastFrom?, link links]
      simp only [moved]
      exact ih
  | case4 bound watch cell atEnd =>
      unfold lastFrom?
      split
      · rename_i next links
        rw [pair_setCdr] at links
        split at links
        · cases links
        · exact absurd links (atEnd next)
      · rfl

/-- Turns the links of a chain around, cons by cons, for at most `bound`
conses. The result is the value at which the walk stopped and the last cons it
turned around. -/
def relink (heap : Heap) (bound : Nat) (tail reversed : Value) : Value × Value × Heap :=
  match tail with
  | .cons cell =>
    match bound with
    | 0 => (tail, reversed, heap)
    | bound + 1 =>
      let next := (heap.pair cell).cdr
      relink (heap.setCdr cell reversed) bound next tail
  | _ => (tail, reversed, heap)

/-- The rest of a list after `count` further conses; the walk stops early at
`nil` and fails when the watch finds the list circular. -/
def dropFrom (heap : Heap) (list : Value) : Nat → CycleWatch → Value → Except Fault Value
  | 0, _, tail => .ok tail
  | count + 1, watch, tail =>
    if tail.isNil then .ok tail
    else
      match heap.cdr tail with
      | .error fault => .error fault
      | .ok next =>
        match watch.next? next with
        | none => .error (.wrongType .listp list)
        | some watch => dropFrom heap list count watch next

end Heap

end ByteLisp
