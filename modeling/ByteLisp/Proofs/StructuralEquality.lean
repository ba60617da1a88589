import ByteLisp.Heap.Equal
import ByteLisp.Proofs.Nesting
import Mathlib.Data.Finset.Prod
import Mathlib.Order.Interval.Finset.Nat

/-!
# Equal structure

Two values are equal when nothing tells them apart, however deep one looks into them. The program
keeps the pairs that are still to be compared in a list and takes up the parts of each pair before
the others. Without a bound this need not come to an end, but when it does, its answer is that of
the bounded comparison: a difference shows within as many levels as there are pairs of objects.

Where no cycle can be reached, a value unfolds to a tree. The comparison of such values always
comes to an end, and finds them equal exactly when they unfold to the same tree.
`Heap.equal_by_structure` says so for every heap.
-/

namespace ByteLisp

/-- What a value unfolds to. Numbers are given by their bits, symbols by their names and strings
by their bytes; functions and primitives are given by their identity. -/
inductive Tree where
  | int (n : Int64)
  | float (bits : UInt64)
  | symbol (name : String)
  | string (bytes : Bytes)
  | function (address : Address)
  | primitive (builtIn : Primitive)
  | cons (car cdr : Tree)
  | vector (items : List Tree)
deriving Inhabited

namespace Heap

variable {heap : Heap} {left right : Value} {pair : Value × Value}
  {parts pending : List (Value × Value)} {levels rounds : Nat} {answer : Bool}
  {s t : Tree}

/-! ## One comparison -/

/-- The two values show no difference as long as their parts, in pairs, do not. -/
inductive Matches (heap : Heap) : Value → Value → List (Value × Value) → Prop where
  | identical {left right : Value} (same : left.isEq right = true) : Matches heap left right []
  | strings {x y : Address} (bytes : heap.string x = heap.string y) :
      Matches heap (.string x) (.string y) []
  | conses {x y : Address} (different : x ≠ y) :
      Matches heap (.cons x) (.cons y)
        [((heap.pair x).car, (heap.pair y).car), ((heap.pair x).cdr, (heap.pair y).cdr)]
  | vectors {x y : Address} (different : x ≠ y)
      (size : (heap.vector x).size = (heap.vector y).size) :
      Matches heap (.vector x) (.vector y) ((heap.vector x).zip (heap.vector y)).toList

/-- The function that looks at one level and the relation that describes it agree. -/
theorem alike?_eq_some_iff :
    heap.alike? left right = some parts ↔ heap.Matches left right parts := by
  constructor
  · intro alike
    unfold alike? at alike
    split at alike
    next x y =>
      split at alike
      next same =>
        cases alike
        exact .identical (by simp [same])
      next different =>
        cases alike
        exact .conses different
    next x y =>
      split at alike
      next same =>
        cases alike
        exact .identical (by simp [same])
      next different =>
        dsimp only at alike
        split at alike
        next size =>
          cases alike
          exact .vectors different size
        next => cases alike
    next x y =>
      split at alike
      next same =>
        cases alike
        exact .strings ((PackedBytes.same_iff _ _).mp same)
      next => cases alike
    next =>
      split at alike
      next same =>
        cases alike
        exact .identical same
      next => cases alike
  · intro alike
    cases alike with
    | identical same =>
        unfold alike?
        split
        next x y => rw [if_pos (by simpa [Value.isEq, Value.isNil] using same)]
        next x y => rw [if_pos (by simpa [Value.isEq, Value.isNil] using same)]
        next x y =>
          obtain rfl : x = y := by simpa [Value.isEq, Value.isNil] using same
          rw [if_pos ((PackedBytes.same_iff _ _).mpr rfl)]
        next => rw [if_pos same]
    | strings bytes => rw [alike?, if_pos ((PackedBytes.same_iff _ _).mpr bytes)]
    | conses different => rw [alike?, if_neg different]
    | vectors different size => rw [alike?, if_neg different, if_pos size]

/-! ## Levels -/

/-- Values are equal down to one level more when they match and their parts are equal down to this
level. -/
theorem equalWithin_succ :
    heap.equalWithin (levels + 1) (left, right) = true ↔
      ∃ parts, heap.Matches left right parts ∧
        ∀ part ∈ parts, heap.equalWithin levels part = true := by
  simp only [← alike?_eq_some_iff]
  rw [equalWithin]
  cases heap.alike? left right <;> simp

/-- Matching values have one list of parts to compare. -/
theorem Matches.unique {others : List (Value × Value)} (alike : heap.Matches left right parts)
    (alikeToo : heap.Matches left right others) : parts = others :=
  Option.some.inj ((alike?_eq_some_iff.mpr alike).symm.trans (alike?_eq_some_iff.mpr alikeToo))

/-- The parts of two vectors are the elements at the same places. -/
theorem mem_zip_vectors {x y : Address} :
    pair ∈ ((heap.vector x).zip (heap.vector y)).toList ↔
      ∃ place : Nat, (heap.vector x)[place]? = some pair.1 ∧
        (heap.vector y)[place]? = some pair.2 := by
  simp only [Array.mem_toList_iff, Array.mem_iff_getElem?, Array.getElem?_zip_eq_some]

/-- What is equal down to a level is equal down to the one above. -/
theorem equalWithin_of_succ (equal : heap.equalWithin (levels + 1) pair = true) :
    heap.equalWithin levels pair = true := by
  induction levels generalizing pair with
  | zero => rfl
  | succ levels ih =>
      obtain ⟨parts, alike, equalParts⟩ := equalWithin_succ.mp equal
      exact equalWithin_succ.mpr ⟨parts, alike, fun part isIn => ih (equalParts part isIn)⟩

/-- And down to all levels above. -/
theorem equalWithin_of_le {fewer : Nat} (within : fewer ≤ levels)
    (equal : heap.equalWithin levels pair = true) : heap.equalWithin fewer pair = true := by
  induction within with
  | refl => exact equal
  | step _ ih => exact ih (equalWithin_of_succ equal)

/-- Nothing tells the two values apart, however deep one looks. -/
def Alike (heap : Heap) (pair : Value × Value) : Prop :=
  ∀ levels, heap.equalWithin levels pair = true

/-- Values are alike when they match and their parts are alike. -/
theorem alike_iff :
    heap.Alike (left, right) ↔
      ∃ parts, heap.Matches left right parts ∧ ∀ part ∈ parts, heap.Alike part := by
  constructor
  · intro alike
    obtain ⟨parts, isMatch, -⟩ := equalWithin_succ.mp (alike 1)
    refine ⟨parts, isMatch, fun part isIn levels => ?_⟩
    obtain ⟨others, isMatchToo, equalParts⟩ := equalWithin_succ.mp (alike (levels + 1))
    rw [isMatch.unique isMatchToo] at isIn
    exact equalParts part isIn
  · rintro ⟨parts, isMatch, alike⟩ levels
    cases levels with
    | zero => rfl
    | succ levels =>
        exact equalWithin_succ.mpr ⟨parts, isMatch, fun part isIn => alike part isIn levels⟩

/-- Of values that match, only the parts are left to compare. -/
theorem Matches.alike_iff (isMatch : heap.Matches left right parts) :
    heap.Alike (left, right) ↔ ∀ part ∈ parts, heap.Alike part := by
  rw [Heap.alike_iff]
  constructor
  · rintro ⟨others, isMatchToo, alike⟩
    rwa [isMatch.unique isMatchToo]
  · exact fun alike => ⟨parts, isMatch, alike⟩

/-! ## Components -/

/-- The value on the left is a field of the cons, or an element of the vector, on the right. -/
inductive Component (heap : Heap) : Value → Value → Prop where
  | car (cell : Address) : Component heap (heap.pair cell).car (.cons cell)
  | cdr (cell : Address) : Component heap (heap.pair cell).cdr (.cons cell)
  | element {address : Address} {item : Value} (member : item ∈ heap.vector address) :
      Component heap item (.vector address)

/-- The heap with the same conses, vectors and strings, in which functions hold nothing. -/
def withoutFunctions (heap : Heap) : Heap :=
  { heap with functions := {} }

/-- Without functions, parts are the components that are compared. -/
theorem component_of_part {part whole : Value} (isPart : heap.withoutFunctions.Part part whole) :
    heap.Component part whole := by
  cases isPart with
  | car cell => exact .car cell
  | cdr cell => exact .cdr cell
  | element member => exact .element member
  | constant member => cases member; contradiction
  | interactive given => cases given

/-- Parts that remain to be compared are components of the two values. -/
theorem Matches.part {first second : Value} (isMatch : heap.Matches left right parts)
    (isIn : (first, second) ∈ parts) :
    heap.withoutFunctions.Part first left ∧ heap.withoutFunctions.Part second right := by
  cases isMatch with
  | identical | strings => cases isIn
  | @conses x y =>
      simp only [List.mem_cons, Prod.mk.injEq, List.not_mem_nil, or_false] at isIn
      obtain ⟨rfl, rfl⟩ | ⟨rfl, rfl⟩ := isIn
      · exact ⟨.car x, .car y⟩
      · exact ⟨.cdr x, .cdr y⟩
  | vectors =>
      obtain ⟨place, isFirst, isSecond⟩ := mem_zip_vectors.mp isIn
      exact ⟨.element (Array.mem_of_getElem? isFirst), .element (Array.mem_of_getElem? isSecond)⟩

/-! ## How deep a difference can be -/

/-- The values are told apart by one level more than this, and not before. -/
def DiffersAt (heap : Heap) (levels : Nat) (pair : Value × Value) : Prop :=
  heap.equalWithin levels pair = true ∧ heap.equalWithin (levels + 1) pair = false

/-- The empty list does not differ from itself. -/
theorem not_differsAt_nil : ¬ heap.DiffersAt levels (.nil, .nil) := by
  rintro ⟨-, different⟩
  have equal : heap.equalWithin (levels + 1) (.nil, .nil) = true :=
    equalWithin_succ.mpr ⟨[], .identical rfl, by simp⟩
  rw [different] at equal
  cases equal

namespace DiffersAt

/-- Values differ first at one level only. -/
theorem unique {others : Nat} (differs : heap.DiffersAt levels pair)
    (differsToo : heap.DiffersAt others pair) : levels = others := by
  have below : ∀ {fewer more}, heap.DiffersAt fewer pair → heap.DiffersAt more pair →
      more ≤ fewer := by
    intro fewer more differsFirst differsLast
    by_contra later
    have equal := equalWithin_of_le (Nat.lt_of_not_le later) differsLast.1
    rw [differsFirst.2] at equal
    cases equal
  exact Nat.le_antisymm (below differsToo differs) (below differs differsToo)

/-- A difference further down shows first in one of the parts. -/
theorem exists_part (differs : heap.DiffersAt (levels + 1) (left, right)) :
    ∃ parts, heap.Matches left right parts ∧ ∃ part ∈ parts, heap.DiffersAt levels part := by
  obtain ⟨equal, different⟩ := differs
  obtain ⟨parts, isMatch, equalParts⟩ := equalWithin_succ.mp equal
  refine ⟨parts, isMatch, ?_⟩
  by_contra none
  have equalDeeper : heap.equalWithin (levels + 1 + 1) (left, right) = true := by
    refine equalWithin_succ.mpr ⟨parts, isMatch, fun part isIn => ?_⟩
    by_contra differsPart
    exact none ⟨part, isIn, equalParts part isIn, by simpa using differsPart⟩
  rw [different] at equalDeeper
  cases equalDeeper

/-- Above the level where values differ, some of their parts differ at each level. -/
theorem exists_of_le {fewer : Nat} (differs : heap.DiffersAt levels pair)
    (within : fewer ≤ levels) : ∃ pair, heap.DiffersAt fewer pair := by
  induction within generalizing pair with
  | refl => exact ⟨pair, differs⟩
  | step _ ih =>
      obtain ⟨parts, -, part, -, differsPart⟩ := differs.exists_part
      exact ih differsPart

/-- Only objects can differ further down, and `nil` is no object. -/
theorem ne_nil (differs : heap.DiffersAt (levels + 1) (left, right)) :
    left ≠ .nil ∧ right ≠ .nil := by
  obtain ⟨parts, isMatch, part, isIn, -⟩ := differs.exists_part
  constructor <;> rintro rfl <;> cases isMatch <;> cases isIn

/-- What differs two levels down or more are two objects in use: the parts of others are `nil`. -/
theorem mem_objects (differs : heap.DiffersAt (levels + 2) (left, right)) :
    left ∈ heap.withoutFunctions.objects ∧ right ∈ heap.withoutFunctions.objects := by
  obtain ⟨parts, isMatch, ⟨first, second⟩, isIn, differsPart⟩ := differs.exists_part
  obtain ⟨firstParts, secondParts⟩ := differsPart.ne_nil
  obtain ⟨isFirst, isSecond⟩ := isMatch.part isIn
  constructor
  · by_contra unused
    exact firstParts (eq_nil_of_part isFirst unused)
  · by_contra unused
    exact secondParts (eq_nil_of_part isSecond unused)

/-- Without objects in use nothing differs further down. -/
theorem objects_nonempty (differs : heap.DiffersAt (levels + 1) (left, right)) :
    heap.withoutFunctions.objects.Nonempty := by
  by_contra none
  rw [Finset.not_nonempty_iff_eq_empty] at none
  obtain ⟨parts, isMatch, ⟨first, second⟩, isIn, differsPart⟩ := differs.exists_part
  obtain ⟨isFirst, isSecond⟩ := isMatch.part isIn
  obtain rfl := eq_nil_of_part isFirst (by simp [none])
  obtain rfl := eq_nil_of_part isSecond (by simp [none])
  exact not_differsAt_nil differsPart

/-- For every number of levels up to that of a difference there is a pair that differs there.
These pairs are all different, so there are no more levels than pairs of objects. -/
theorem lt_square (differs : heap.DiffersAt levels pair) :
    levels < (heap.pairs.size + heap.vectors.size + 1) *
      (heap.pairs.size + heap.vectors.size + 1) := by
  have found : ∀ depth ∈ Finset.Icc 2 levels,
      ∃ objects ∈ heap.withoutFunctions.objects ×ˢ heap.withoutFunctions.objects,
        heap.DiffersAt depth objects := by
    intro depth within
    obtain ⟨deep, shallow⟩ := Finset.mem_Icc.mp within
    obtain ⟨further, rfl⟩ := Nat.exists_eq_add_of_le' deep
    obtain ⟨⟨first, second⟩, differsThere⟩ := differs.exists_of_le shallow
    exact ⟨_, Finset.mem_product.mpr differsThere.mem_objects, differsThere⟩
  choose! objects isPair differsThere using found
  have few := Finset.card_le_card_of_injOn objects isPair (by
    intro depth within other otherWithin same
    have differsToo := differsThere other otherWithin
    rw [← same] at differsToo
    exact (differsThere depth within).unique differsToo)
  rw [Nat.card_Icc, Finset.card_product] at few
  have all : heap.withoutFunctions.objects.card ≤ heap.pairs.size + heap.vectors.size :=
    heap.withoutFunctions.card_objects_le
  have square := Nat.mul_le_mul all all
  cases levels with
  | zero => exact Nat.mul_pos (Nat.succ_pos _) (Nat.succ_pos _)
  | succ levels =>
      obtain ⟨first, second⟩ := pair
      have someObject := differs.objects_nonempty.card_pos
      rw [Nat.succ_mul_succ]
      omega

end DiffersAt

/-- Nothing tells the values apart that are found equal. -/
theorem equal_iff_alike : heap.equal left right = true ↔ heap.Alike (left, right) := by
  rw [equal_eq_equalWithin]
  constructor
  · intro equal
    by_contra apart
    obtain ⟨deep, different⟩ := not_forall.mp apart
    -- The least number of levels that tells them apart is not zero.
    have shows : ∃ levels, heap.equalWithin levels (left, right) = false :=
      ⟨deep, by simpa using different⟩
    classical
    obtain ⟨levels, isLeast⟩ := Nat.exists_eq_succ_of_ne_zero
      (show Nat.find shows ≠ 0 by
        intro zero
        have differs := Nat.find_spec shows
        rw [zero] at differs
        cases differs)
    have differs : heap.DiffersAt levels (left, right) := by
      constructor
      · simpa using Nat.find_min shows (show levels < Nat.find shows by omega)
      · rw [← Nat.succ_eq_add_one, ← isLeast]
        exact Nat.find_spec shows
    have equalDeeper := equalWithin_of_le differs.lt_square equal
    rw [differs.2] at equalDeeper
    cases equalDeeper
  · exact fun alike => alike _

/-! ## The comparison without a bound -/

/-- Taking up one pending pair after the other, its parts before those that were pending already,
comes to the answer after so many pairs. -/
inductive Compares (heap : Heap) : List (Value × Value) → Nat → Bool → Prop where
  | done : Compares heap [] 0 true
  | different {left right : Value} {pending : List (Value × Value)}
      (apart : heap.alike? left right = none) : Compares heap ((left, right) :: pending) 1 false
  | alike {left right : Value} {parts pending : List (Value × Value)} {rounds : Nat}
      {answer : Bool} (isMatch : heap.alike? left right = some parts)
      (rest : Compares heap (parts ++ pending) rounds answer) :
      Compares heap ((left, right) :: pending) (rounds + 1) answer

/-- Values that do not match at the first level are not alike. -/
theorem not_alike_of_alike?_eq_none (apart : heap.alike? left right = none) :
    ¬ heap.Alike (left, right) := by
  rw [alike_iff]
  rintro ⟨parts, isMatch, -⟩
  rw [alike?_eq_some_iff.mpr isMatch] at apart
  cases apart

/-- A comparison that ends is right about all the pairs that were pending. -/
theorem Compares.answer_iff (compares : heap.Compares pending rounds answer) :
    answer = true ↔ ∀ pair ∈ pending, heap.Alike pair := by
  induction compares with
  | done => simp
  | different apart => simp [not_alike_of_alike?_eq_none apart]
  | alike isMatch rest ih =>
      rw [ih, List.forall_mem_append, List.forall_mem_cons,
        (alike?_eq_some_iff.mp isMatch).alike_iff]

/-- The bounded comparison has the same answer, for all values. -/
theorem Compares.equal_eq (compares : heap.Compares [(left, right)] rounds answer) :
    heap.equal left right = answer := by
  rw [Bool.eq_iff_iff, equal_iff_alike, compares.answer_iff, List.forall_mem_singleton]

/-! ## Trees -/

/-- The tree of a value that has no parts. Both forms of `nil` have the tree of the symbol. -/
def leaf? (heap : Heap) : Value → Option Tree
  | .nil => some (.symbol "nil")
  | .int n => some (.int n)
  | .float x => some (.float x.bits)
  | .symbol symbol => some (.symbol symbol.name)
  | .string address => some (.string (heap.string address).toBytes)
  | .function address => some (.function address)
  | .primitive builtIn => some (.primitive builtIn)
  | .cons _ | .vector _ => none

/-- The value unfolds to the tree, through conses and vectors. -/
inductive Unfolds (heap : Heap) : Value → Tree → Prop where
  | leaf {value : Value} {tree : Tree} (isLeaf : heap.leaf? value = some tree) :
      Unfolds heap value tree
  | cons {cell : Address} {car cdr : Tree} (first : Unfolds heap (heap.pair cell).car car)
      (second : Unfolds heap (heap.pair cell).cdr cdr) : Unfolds heap (.cons cell) (.cons car cdr)
  | vector {address : Address} {items : List Tree}
      (size : items.length = (heap.vector address).size)
      (elements : ∀ (place : Nat) (item : Value) (tree : Tree),
        (heap.vector address)[place]? = some item → items[place]? = some tree →
        Unfolds heap item tree) :
      Unfolds heap (.vector address) (.vector items)

/-- A leaf is no cons. -/
theorem leaf?_ne_cons (value : Value) (car cdr : Tree) :
    heap.leaf? value ≠ some (.cons car cdr) := by
  cases value <;> simp [leaf?]

/-- A leaf is no vector. -/
theorem leaf?_ne_vector (value : Value) (items : List Tree) :
    heap.leaf? value ≠ some (.vector items) := by
  cases value <;> simp [leaf?]

/-- Both forms of `nil` are one leaf. -/
theorem leaf?_of_isNil {value : Value} (isNil : value.isNil = true) :
    heap.leaf? value = some (.symbol "nil") := by
  cases value <;> simp_all [leaf?, Value.isNil, Symbol.nil]

/-- Identical values are the same leaf. -/
theorem leaf?_eq_of_isEq (same : left.isEq right = true) : heap.leaf? left = heap.leaf? right := by
  obtain rfl | ⟨leftNil, rightNil⟩ := (Value.isEq_iff left right).mp same
  · rfl
  · rw [leaf?_of_isNil leftNil, leaf?_of_isNil rightNil]

/-- The same leaf matches and has no parts. -/
theorem matches_of_leaf?_eq (leftLeaf : heap.leaf? left = some s)
    (rightLeaf : heap.leaf? right = some s) : heap.Matches left right [] := by
  cases left with
  | cons | vector => cases leftLeaf
  | int | function | primitive =>
      cases leftLeaf
      cases right <;> cases rightLeaf
      exact .identical (Value.isEq_refl _)
  | float x =>
      cases x
      cases leftLeaf
      cases right with
      | float y => cases y; cases rightLeaf; exact .identical (Value.isEq_refl _)
      | _ => cases rightLeaf
  | string x =>
      cases leftLeaf
      cases right with
      | string y =>
          refine .strings (ByteArray.ext ?_)
          exact (Tree.string.inj (Option.some.inj rightLeaf)).symm
      | _ => cases rightLeaf
  | nil =>
      cases leftLeaf
      cases right with
      | nil => exact .identical rfl
      | symbol name => cases name; cases rightLeaf; exact .identical rfl
      | _ => cases rightLeaf
  | symbol name =>
      cases name
      cases leftLeaf
      cases right with
      | nil => cases rightLeaf; exact .identical rfl
      | symbol other => cases other; cases rightLeaf; exact .identical (Value.isEq_refl _)
      | _ => cases rightLeaf

/-- A value that has the tree of a leaf shows all of it at once. -/
theorem Matches.eq_nil_of_leaf? (isMatch : heap.Matches left right parts)
    (isLeaf : heap.leaf? left = some s) : parts = [] := by
  cases isMatch with
  | identical | strings => rfl
  | conses | vectors => cases isLeaf

namespace Unfolds

/-- A value unfolds to one tree only. -/
theorem unique {value : Value} (unfolds : heap.Unfolds value s)
    (unfoldsToo : heap.Unfolds value t) : s = t := by
  induction unfolds generalizing t with
  | leaf isLeaf =>
      cases unfoldsToo with
      | leaf isLeafToo => exact Option.some.inj (isLeaf.symm.trans isLeafToo)
      | cons | vector => cases isLeaf
  | cons _ _ ihFirst ihSecond =>
      cases unfoldsToo with
      | leaf isLeaf => cases isLeaf
      | cons first second => rw [ihFirst first, ihSecond second]
  | vector size _ ih =>
      cases unfoldsToo with
      | leaf isLeaf => cases isLeaf
      | vector sizeToo elements =>
          congr 1
          refine List.ext_getElem (size.trans sizeToo.symm) fun place inside insideToo => ?_
          have isItem := Array.getElem?_eq_getElem (size ▸ inside)
          exact ih place _ _ isItem (List.getElem?_eq_getElem inside)
            (elements place _ _ isItem (List.getElem?_eq_getElem insideToo))

/-- What nothing tells apart from a value unfolds to the same tree. -/
theorem of_alike (unfolds : heap.Unfolds left s) (alike : heap.Alike (left, right)) :
    heap.Unfolds right s := by
  induction unfolds generalizing right with
  | leaf isLeaf =>
      obtain ⟨parts, isMatch, -⟩ := alike_iff.mp alike
      cases isMatch with
      | identical same => exact .leaf (leaf?_eq_of_isEq same ▸ isLeaf)
      | strings bytes => exact .leaf (by rwa [leaf?, ← bytes])
      | conses | vectors => cases isLeaf
  | cons first second ihFirst ihSecond =>
      obtain ⟨parts, isMatch, alikeParts⟩ := alike_iff.mp alike
      cases isMatch with
      | identical same =>
          obtain rfl : _ = right := by simpa [Value.isEq, Value.isNil] using same
          exact .cons first second
      | conses =>
          exact .cons (ihFirst (alikeParts _ (by simp))) (ihSecond (alikeParts _ (by simp)))
  | @vector address items size elements ih =>
      obtain ⟨parts, isMatch, alikeParts⟩ := alike_iff.mp alike
      cases isMatch with
      | identical same =>
          obtain rfl : _ = right := by simpa [Value.isEq, Value.isNil] using same
          exact .vector size elements
      | @vectors _ y different sameSize =>
          refine .vector (size.trans sameSize) fun place item tree isItem isTree => ?_
          have inside : place < (heap.vector address).size :=
            size ▸ (List.getElem?_eq_some_iff.mp isTree).1
          have isFirst := Array.getElem?_eq_getElem inside
          exact ih place _ tree isFirst isTree
            (alikeParts (_, item) (mem_zip_vectors.mpr ⟨place, isFirst, isItem⟩))

/-- Nothing tells values apart that unfold to the same tree. -/
theorem alike (unfolds : heap.Unfolds left s) (unfoldsToo : heap.Unfolds right s) :
    heap.Alike (left, right) := by
  induction unfolds generalizing right with
  | leaf isLeaf =>
      cases unfoldsToo with
      | leaf isLeafToo => exact (matches_of_leaf?_eq isLeaf isLeafToo).alike_iff.mpr (by simp)
      | cons => exact absurd isLeaf (leaf?_ne_cons _ _ _)
      | vector => exact absurd isLeaf (leaf?_ne_vector _ _)
  | @cons cell car cdr _ _ ihFirst ihSecond =>
      cases unfoldsToo with
      | leaf isLeaf => exact absurd isLeaf (leaf?_ne_cons _ _ _)
      | @cons other _ _ first second =>
          by_cases same : cell = other
          · subst same
            exact (Matches.identical (Value.isEq_refl _)).alike_iff.mpr (by simp)
          · refine (Matches.conses same).alike_iff.mpr ?_
            simp [ihFirst first, ihSecond second]
  | @vector address items size elements ih =>
      cases unfoldsToo with
      | leaf isLeaf => exact absurd isLeaf (leaf?_ne_vector _ _)
      | @vector other _ sizeToo elementsToo =>
          by_cases same : address = other
          · subst same
            exact (Matches.identical (Value.isEq_refl _)).alike_iff.mpr (by simp)
          · refine (Matches.vectors same (size.symm.trans sizeToo)).alike_iff.mpr ?_
            rintro ⟨first, second⟩ isPart
            obtain ⟨place, isFirst, isSecond⟩ := mem_zip_vectors.mp isPart
            have inside : place < items.length :=
              size ▸ (Array.getElem?_eq_some_iff.mp isFirst).1
            have isTree := List.getElem?_eq_getElem inside
            exact ih place first _ isFirst isTree (elementsToo place second _ isSecond isTree)

end Unfolds

/-! ## Values from which no cycle can be reached -/

/-- No cycle of conses and vectors can be reached from the value through conses and vectors. -/
def NoCycle (heap : Heap) (value : Value) : Prop :=
  ∀ part, Relation.ReflTransGen heap.Component part value →
    ¬ Relation.TransGen heap.Component part part

/-- A component is a part. -/
theorem Component.part {part whole : Value} (isPart : heap.Component part whole) :
    heap.Part part whole := by
  cases isPart with
  | car cell => exact .car cell
  | cdr cell => exact .cdr cell
  | element member => exact .element member

/-- A value without any cycle has none that leaves functions out. -/
theorem Acyclic.noCycle {value : Value} (acyclic : heap.Acyclic value) : heap.NoCycle value :=
  fun part inside cycle =>
    acyclic part (Relation.ReflTransGen.mono (fun _ _ => Component.part) _ _ inside)
      (Relation.TransGen.mono (fun _ _ => Component.part) _ _ cycle)

/-- Where functions are left out, no other cycles are left. -/
theorem NoCycle.acyclic {value : Value} (noCycle : heap.NoCycle value) :
    heap.withoutFunctions.Acyclic value :=
  fun part inside cycle =>
    noCycle part (Relation.ReflTransGen.mono (fun _ _ => component_of_part) _ _ inside)
      (Relation.TransGen.mono (fun _ _ => component_of_part) _ _ cycle)

/-- What is nested within a bound unfolds to a tree. -/
theorem exists_unfolds_of_nestedWithin {bound : Nat} {value : Value}
    (acyclic : heap.withoutFunctions.Acyclic value)
    (nested : heap.withoutFunctions.NestedWithin bound value) :
    ∃ tree, heap.Unfolds value tree := by
  induction bound generalizing value with
  | zero => exact absurd nested.pos (Nat.lt_irrefl 0)
  | succ bound ih =>
      have below : ∀ part, heap.withoutFunctions.Part part value →
          ∃ tree, heap.Unfolds part tree :=
        fun part isPart => ih (acyclic.inside (.single isPart)) (nested.part acyclic isPart)
      cases value with
      | cons cell =>
          obtain ⟨car, first⟩ := below _ (.car cell)
          obtain ⟨cdr, second⟩ := below _ (.cdr cell)
          exact ⟨.cons car cdr, .cons first second⟩
      | vector address =>
          have elements : ∀ item ∈ heap.vector address, ∃ tree, heap.Unfolds item tree :=
            fun item member => below item (.element member)
          choose! tree unfolds using elements
          refine ⟨.vector ((heap.vector address).toList.map tree), .vector (by simp) ?_⟩
          intro place item itemTree isItem isTree
          obtain rfl : tree item = itemTree := by simpa [isItem] using isTree
          exact unfolds item (Array.mem_of_getElem? isItem)
      | _ => exact ⟨_, .leaf rfl⟩

/-- Every value without cycles unfolds to a tree. -/
theorem NoCycle.exists_unfolds {value : Value} (noCycle : heap.NoCycle value) :
    ∃ tree, heap.Unfolds value tree :=
  exists_unfolds_of_nestedWithin noCycle.acyclic (nestedWithin_nestingBound value)

/-! ## The comparison of such values ends -/

/-- The comparison of all that is pending comes to an answer. -/
def Finishes (heap : Heap) (pending : List (Value × Value)) : Prop :=
  ∃ rounds answer, heap.Compares pending rounds answer

/-- A comparison finishes when it finishes with the parts in place of the pair. -/
theorem finishes_cons
    (rest : ∀ parts, heap.Matches left right parts → heap.Finishes (parts ++ pending)) :
    heap.Finishes ((left, right) :: pending) := by
  cases alike : heap.alike? left right with
  | none => exact ⟨1, false, .different alike⟩
  | some parts =>
      obtain ⟨rounds, answer, compares⟩ := rest parts (alike?_eq_some_iff.mp alike)
      exact ⟨rounds + 1, answer, .alike alike compares⟩

/-- It finishes with further pairs in front when each of them finishes on its own. -/
theorem finishes_append (finishes : heap.Finishes pending)
    (each : ∀ part ∈ parts, ∀ others, heap.Finishes others → heap.Finishes (part :: others)) :
    heap.Finishes (parts ++ pending) := by
  induction parts with
  | nil => exact finishes
  | cons part parts ih =>
      obtain ⟨first, others⟩ := List.forall_mem_cons.mp each
      exact first _ (ih others)

/-- Whatever a value that unfolds to a tree is compared with, its comparison ends. -/
theorem Unfolds.finishes (unfolds : heap.Unfolds left s) (finishes : heap.Finishes pending) :
    heap.Finishes ((left, right) :: pending) := by
  induction unfolds generalizing right pending with
  | leaf isLeaf =>
      refine finishes_cons fun parts isMatch => ?_
      rwa [isMatch.eq_nil_of_leaf? isLeaf]
  | cons _ _ ihFirst ihSecond =>
      refine finishes_cons fun parts isMatch => ?_
      cases isMatch with
      | identical => exact finishes
      | conses => exact ihFirst (ihSecond finishes)
  | @vector address items size _ ih =>
      refine finishes_cons fun parts isMatch => ?_
      cases isMatch with
      | identical => exact finishes
      | vectors =>
          refine finishes_append finishes fun ⟨first, second⟩ isPart others othersFinish => ?_
          obtain ⟨place, isFirst, -⟩ := mem_zip_vectors.mp isPart
          have inside : place < items.length := size ▸ (Array.getElem?_eq_some_iff.mp isFirst).1
          exact ih place first _ isFirst (List.getElem?_eq_getElem inside) othersFinish

/-- A comparison with a value that unfolds finishes, and gives this answer. -/
theorem Unfolds.exists_compares (unfolds : heap.Unfolds left s) :
    ∃ rounds, heap.Compares [(left, right)] rounds (heap.equal left right) := by
  have finishes : heap.Finishes [(left, right)] := unfolds.finishes ⟨0, true, .done⟩
  obtain ⟨rounds, answer, compares⟩ := finishes
  exact ⟨rounds, compares.equal_eq ▸ compares⟩

/-- Values that unfold are equal exactly when their trees are. -/
theorem Unfolds.equal_iff (unfolds : heap.Unfolds left s) (unfoldsToo : heap.Unfolds right t) :
    heap.equal left right = true ↔ s = t := by
  rw [equal_iff_alike]
  constructor
  · exact fun alike => (unfolds.of_alike alike).unique unfoldsToo
  · rintro rfl
    exact unfolds.alike unfoldsToo

/-- Identical values are found equal at once. -/
theorem compares_of_isEq (same : left.isEq right = true) :
    heap.Compares [(left, right)] 1 true :=
  .alike (alike?_eq_some_iff.mpr (.identical same)) .done

/-- On values without cycles, equality is an equivalence. -/
theorem equal_equivalence (heap : Heap) :
    Equivalence fun left right : { value // heap.NoCycle value } =>
      heap.equal left right = true where
  refl value := (compares_of_isEq (Value.isEq_refl _)).equal_eq
  symm := by
    rintro ⟨left, leftEnds⟩ ⟨right, rightEnds⟩ equal
    obtain ⟨s, unfolds⟩ := leftEnds.exists_unfolds
    obtain ⟨t, unfoldsToo⟩ := rightEnds.exists_unfolds
    exact (unfoldsToo.equal_iff unfolds).mpr ((unfolds.equal_iff unfoldsToo).mp equal).symm
  trans := by
    rintro ⟨left, leftEnds⟩ ⟨middle, middleEnds⟩ ⟨right, rightEnds⟩ first second
    obtain ⟨s, unfolds⟩ := leftEnds.exists_unfolds
    obtain ⟨t, unfoldsMiddle⟩ := middleEnds.exists_unfolds
    obtain ⟨u, unfoldsToo⟩ := rightEnds.exists_unfolds
    exact (unfolds.equal_iff unfoldsToo).mpr
      (((unfolds.equal_iff unfoldsMiddle).mp first).trans
        ((unfoldsMiddle.equal_iff unfoldsToo).mp second))

/-- For every heap. A value from which no cycle can be reached unfolds to one tree, and taking up
the pending pairs of such a value and any other comes to an end, with the answer of `equal`. That
answer is that values are equal exactly when they unfold to the same tree; on values from which no
cycle can be reached it is an equivalence. Of all values, whenever the comparison without a bound
ends, it ends with this answer, and identical values are equal. -/
theorem equal_by_structure (heap : Heap) :
    (∀ value, heap.NoCycle value → ∃! tree, heap.Unfolds value tree) ∧
    (∀ left right, heap.NoCycle left →
      ∃ rounds, heap.Compares [(left, right)] rounds (heap.equal left right)) ∧
    (∀ left right s t, heap.Unfolds left s → heap.Unfolds right t →
      (heap.equal left right = true ↔ s = t)) ∧
    (Equivalence fun left right : { value // heap.NoCycle value } =>
      heap.equal left right = true) ∧
    (∀ left right rounds answer, heap.Compares [(left, right)] rounds answer →
      heap.equal left right = answer) ∧
    ∀ left right, left.isEq right = true →
      heap.Compares [(left, right)] 1 true ∧ heap.equal left right = true := by
  refine ⟨fun value noCycle => ?_, fun left right noCycle => ?_, ?_, heap.equal_equivalence, ?_, ?_⟩
  · obtain ⟨tree, unfolds⟩ := noCycle.exists_unfolds
    exact ⟨tree, unfolds, fun other unfoldsToo => unfoldsToo.unique unfolds⟩
  · obtain ⟨tree, unfolds⟩ := noCycle.exists_unfolds
    exact unfolds.exists_compares
  · exact fun left right s t => Unfolds.equal_iff
  · exact fun left right rounds answer => Compares.equal_eq
  · exact fun left right same => ⟨compares_of_isEq same, (compares_of_isEq same).equal_eq⟩

/-- Two conses of a string and a vector. They share a string inside their vectors, have one of
their own each, and hold the two forms of `nil`. -/
def sharing : Heap where
  pairs := ⟨#[⟨.string 0, .vector 0⟩, ⟨.string 1, .vector 1⟩]⟩
  vectors := ⟨#[#[.nil, .string 2], #[.symbol .nil, .string 2]]⟩
  strings := ⟨#[.ofBytes #[97], .ofBytes #[97], .ofBytes #[98]]⟩

/-- In the example every object has a higher rank than its parts. -/
def sharingRank : Value → Nat
  | .cons _ => 2
  | .vector _ => 1
  | _ => 0

/-- The example has no cycles. -/
theorem noCycle_sharing (value : Value) : sharing.NoCycle value := by
  refine (acyclic_of_rank sharingRank (fun part whole isPart => ?_) value).noCycle
  cases isPart with
  | car cell | cdr cell =>
      obtain _ | _ | cell := cell <;> simp [sharing, pair, Store.read, sharingRank]
  | @element address item member =>
      obtain _ | _ | address := address
      · obtain rfl | rfl : part = .nil ∨ part = .string 2 := by
          simpa [sharing, vector, Store.read] using member
        all_goals simp [sharingRank]
      · obtain rfl | rfl : part = .symbol .nil ∨ part = .string 2 := by
          simpa [sharing, vector, Store.read] using member
        all_goals simp [sharingRank]
      · cases member
        contradiction
  | constant member => cases member; contradiction
  | interactive given => cases given

/-- What both conses unfold to. -/
def sharingTree : Tree :=
  .cons (.string #[97]) (.vector [.symbol "nil", .string #[98]])

/-- The list that shares its parts and the one that does not unfold to the same tree. -/
theorem unfolds_sharing :
    sharing.Unfolds (.cons 0) sharingTree ∧ sharing.Unfolds (.cons 1) sharingTree := by
  constructor
  all_goals
    refine .cons (.leaf rfl) (.vector rfl fun place item tree isItem isTree => ?_)
    obtain _ | _ | place := place
    · cases isItem; cases isTree; exact .leaf rfl
    · cases isItem; cases isTree; exact .leaf rfl
    · cases isTree

/-- The two lists are equal, and so are the two forms of `nil`. -/
theorem sharing_equal :
    (sharing.NoCycle (.cons 0) ∧ sharing.Unfolds (.cons 0) sharingTree ∧
      sharing.Unfolds (.cons 1) sharingTree ∧ (Value.nil).isEq (.symbol .nil) = true) ∧
    sharing.equal (.cons 0) (.cons 1) = true ∧
    (∃ rounds, sharing.Compares [(.cons 0, .cons 1)] rounds true) ∧
    sharing.equal .nil (.symbol .nil) = true := by
  obtain ⟨-, ends, sameTree, -, -, identical⟩ := equal_by_structure sharing
  have equal : sharing.equal (.cons 0) (.cons 1) = true :=
    (sameTree _ _ _ _ unfolds_sharing.1 unfolds_sharing.2).mpr rfl
  exact ⟨⟨noCycle_sharing _, unfolds_sharing.1, unfolds_sharing.2, rfl⟩, equal,
    equal ▸ ends (.cons 0) (.cons 1) (noCycle_sharing _), (identical _ _ rfl).2⟩

end Heap

end ByteLisp
