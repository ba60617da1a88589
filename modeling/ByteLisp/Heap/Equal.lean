import ByteLisp.Heap.Basic

/-!
# Structural equality

Two values are equal when no path of fields and elements leads to a difference
between them. Two conses or vectors that lead to a difference do so within as
many levels as there are pairs of such objects, so it is enough to look that
deep.

The comparison goes into the first parts first and ends with the first
difference. It keeps the comparisons that remain in a list of its own, so that
deep structure is as good as long structure.
-/

namespace ByteLisp

namespace Heap

/-- Compares two values without going into their parts. None is a difference;
otherwise the result holds the pairs of parts that remain to be compared. -/
def alike? (heap : Heap) (left right : Value) : Option (List (Value × Value)) :=
  match left, right with
  | .cons x, .cons y =>
    if x = y then some []
    else
      let a := heap.pair x
      let b := heap.pair y
      some [(a.car, b.car), (a.cdr, b.cdr)]
  | .vector x, .vector y =>
    if x = y then some []
    else
      let a := heap.vector x
      let b := heap.vector y
      if a.size = b.size then some (a.zip b).toList else none
  | .string x, .string y => if (heap.string x).same (heap.string y) then some [] else none
  | _, _ => if left.isEq right then some [] else none

/-- Whether two values show no difference within `levels` levels. -/
def equalWithin (heap : Heap) : Nat → Value × Value → Bool
  | 0, _ => true
  | levels + 1, (left, right) =>
    match heap.alike? left right with
    | none => false
    | some parts => parts.all (equalWithin heap levels)

/-- The number of comparisons that the comparison of two values comes to, when
it goes `levels` levels deep. -/
def comparisons (heap : Heap) : Nat → Value × Value → Nat
  | 0, _ => 1
  | levels + 1, (left, right) =>
    match heap.alike? left right with
    | none => 1
    | some parts => 1 + (parts.map (comparisons heap levels)).foldr (· + ·) 0

/-- Two values to be compared within a number of levels. -/
structure Comparison where
  levels : Nat
  values : Value × Value

/-- Whether none of the pending comparisons shows a difference. -/
def equalAll (heap : Heap) (pending : List Comparison) : Bool :=
  match pending with
  | [] => true
  | ⟨0, _⟩ :: pending => equalAll heap pending
  | ⟨levels + 1, (left, right)⟩ :: pending =>
    match _alike : heap.alike? left right with
    | none => false
    | some parts => equalAll heap (parts.map (Comparison.mk levels) ++ pending)
termination_by
  (pending.map fun next => heap.comparisons next.levels next.values).foldr (· + ·) 0
decreasing_by
  · simp [comparisons]
  · simp only [← List.sum_eq_foldr]
    simp [comparisons, _alike, Function.comp_def, ← List.sum_eq_foldr]

/-- Whether two values have the same structure. -/
def equal (heap : Heap) (left right : Value) : Bool :=
  let objects := heap.pairs.size + heap.vectors.size + 1
  heap.equalAll [⟨objects * objects, (left, right)⟩]

/-- The order of the comparisons has no influence on the answer. -/
theorem equalAll_eq_all (heap : Heap) (pending : List Comparison) :
    heap.equalAll pending = pending.all fun next => heap.equalWithin next.levels next.values := by
  fun_induction equalAll heap pending with
  | case1 => rfl
  | case2 _ _ ih => simp [equalWithin, ih]
  | case3 _ _ _ _ different => simp [equalWithin, different]
  | case4 levels left right pending parts alike ih =>
    simp [equalWithin, alike, ih, Function.comp_def]

/-- Equality is the absence of a difference within as many levels as there are
pairs of objects. -/
theorem equal_eq_equalWithin (heap : Heap) (left right : Value) :
    heap.equal left right =
      heap.equalWithin ((heap.pairs.size + heap.vectors.size + 1) *
        (heap.pairs.size + heap.vectors.size + 1)) (left, right) := by
  simp [equal, equalAll_eq_all]

end Heap

end ByteLisp
