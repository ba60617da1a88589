import ByteLisp.Operation.Sequences
import ByteLisp.Proofs.DataFaults
import ByteLisp.Proofs.NewObjects

/-!
# Parts of strings and vectors

A bound of a part is counted from the start, or from the end when it is negative, and `nil` stands
for the start or the end itself. `Sequences.substring_by_places` says for all bounds when there is
such a part and what it holds, and that the two parts of a string before and behind a place join to
the whole.
-/

namespace ByteLisp

namespace Heap

/-- A new string is found at its address, and no other string has changed. -/
theorem string_newString (heap : Heap) (bytes : PackedBytes) (address : Address) :
    (heap.newString bytes).2.string address =
      if address = heap.strings.size then bytes else heap.string address := by
  simp [newString, string, Store.read_push]

/-- A string stays as it is when a part of it is made. -/
theorem string_newString_extract (heap : Heap) (address : Address) (first last : Nat) :
    (heap.newString ((heap.string address).extract first last)).2.string address =
      heap.string address := by
  rw [string_newString]
  split
  next unused =>
    -- The part gets the address of the string only if that was not in use. Then both are empty.
    have empty : heap.string address = default := Store.read_of_size_le (Nat.le_of_eq unused.symm)
    rw [empty]
    apply ByteArray.ext
    simp [default]
  next => rfl

end Heap

namespace Sequences

/-- What may be given as a bound: `nil` or an integer. -/
def IsBound (bound : Value) : Prop :=
  bound.isNil = true ∨ ∃ n, bound = .int n

/-- The place that a bound stands for, as an integer that may lie outside of the sequence. -/
def placeOf (bound : Value) (size default : Nat) : Int :=
  match bound with
  | .int n => if 0 ≤ n.toInt then n.toInt else size + n.toInt
  | _ => default

variable {bound start stop : Value} {size default place first last : Nat}

/-- An integer and `nil` are accepted as bounds. -/
theorem checkBound_of_isBound (isBound : IsBound bound) : checkBound bound = .ok () := by
  obtain isNil | ⟨n, rfl⟩ := isBound
  · simp [checkBound, isNil]
  · rfl

/-- A bound is accepted where its place lies inside, the end included. -/
theorem bound?_eq_some_iff (isBound : IsBound bound) (inside : default ≤ size) :
    bound? bound size default = some place ↔
      (place : Int) = placeOf bound size default ∧ place ≤ size := by
  obtain isNil | ⟨n, rfl⟩ := isBound
  · have isDefault : bound? bound size default = some default ∧
        placeOf bound size default = default := by
      cases bound with
      | nil => exact ⟨rfl, rfl⟩
      | symbol name => exact ⟨if_pos isNil, rfl⟩
      | _ => cases isNil
    rw [isDefault.1, isDefault.2, Option.some_inj]
    omega
  · unfold bound? placeOf
    dsimp only
    split <;> split <;> simp only [Option.some_inj, reduceCtorEq, false_iff] <;> split <;> omega

/-- A range is accepted where its places lie inside, and the second one not before the first. -/
theorem range?_eq_some_iff (isStart : IsBound start) (isStop : IsBound stop) :
    range? start stop size = some (first, last) ↔
      (first : Int) = placeOf start size 0 ∧ (last : Int) = placeOf stop size size ∧
        first ≤ last ∧ last ≤ size := by
  simp only [range?, Option.bind_eq_bind, Option.bind_eq_some_iff, Option.ite_none_right_eq_some,
    Option.some_inj, Prod.mk.injEq, bound?_eq_some_iff isStart (Nat.zero_le size),
    bound?_eq_some_iff isStop (Nat.le_refl size)]
  constructor
  · rintro ⟨_, ⟨isFirst, -⟩, _, ⟨isLast, inside⟩, ordered, rfl, rfl⟩
    exact ⟨isFirst, isLast, ordered, inside⟩
  · rintro ⟨isFirst, isLast, ordered, inside⟩
    exact ⟨first, ⟨isFirst, by omega⟩, last, ⟨isLast, inside⟩, ordered, rfl, rfl⟩

/-- There is a range exactly when the two places lie in order within the sequence. -/
theorem exists_range?_iff (isStart : IsBound start) (isStop : IsBound stop) :
    (∃ limits, range? start stop size = some limits) ↔
      0 ≤ placeOf start size 0 ∧ placeOf start size 0 ≤ placeOf stop size size ∧
        placeOf stop size size ≤ size := by
  constructor
  · rintro ⟨⟨first, last⟩, accepted⟩
    obtain ⟨isFirst, isLast, ordered, inside⟩ := (range?_eq_some_iff isStart isStop).mp accepted
    omega
  · rintro ⟨nonnegative, ordered, inside⟩
    refine ⟨((placeOf start size 0).toNat, (placeOf stop size size).toNat),
      (range?_eq_some_iff isStart isStop).mpr ?_⟩
    omega

/-! ## Parts as new objects -/

/-- A kind of sequences whose elements are found by their place. -/
structure ArrayKind (α : Type) where
  value : Address → Value
  /-- The number of addresses in use. -/
  count : Heap → Nat
  elements : Heap → Address → List α

/-- Strings, as sequences of bytes. -/
def strings : ArrayKind UInt8 where
  value := .string
  count heap := heap.strings.size
  elements heap address := (heap.string address).data.toList

/-- Vectors, as sequences of values. -/
def vectors : ArrayKind Value where
  value := .vector
  count heap := heap.vectors.size
  elements heap address := (heap.vector address).toList

/-- The part of a sequence between two bounds. It is there exactly when the places that the bounds
stand for lie inside and in order. It is a new object then, of exactly the elements between the two
places. Otherwise the bounds are refused as out of range. All other objects stay as they were. -/
structure ArrayKind.CutsOut {α : Type} (kind : ArrayKind α) (heap : Heap) (address : Address)
    (start stop : Value) (first last : Int) : Prop where
  succeeds_iff :
    (∃ value after, substring (kind.value address) start stop heap = (.ok value, after)) ↔
      0 ≤ first ∧ first ≤ last ∧ last ≤ (kind.elements heap address).length
  made : ∀ value after, substring (kind.value address) start stop heap = (.ok value, after) →
    heap.Extends after ∧ ∃ new, value = kind.value new ∧ kind.count heap ≤ new ∧
      new < kind.count after ∧ kind.elements after new =
        ((kind.elements heap address).drop first.toNat).take (last - first).toNat
  refused : ∀ fault after, substring (kind.value address) start stop heap = (.error fault, after) →
    heap.Extends after ∧ ∃ bounds, fault = .argsOutOfRange (kind.value address) bounds ∧
      after.elements bounds = .ok #[start, stop]

section CuttingOut

variable {heap : Heap} {address : Address}

/-- A range within the sequence is given as it is. -/
theorem range_of_inside (sequence : Value) (inside : range? start stop size = some (first, last)) :
    range sequence start stop size heap = (.ok (first, last), heap) := by
  rw [range, inside]
  rfl

/-- The fault shows a new list of the bounds. -/
theorem range_of_outside (sequence : Value) (outside : range? start stop size = none) :
    range sequence start stop size heap =
      (.error (.argsOutOfRange sequence (heap.list [start, stop]).1),
        (heap.list [start, stop]).2) := by
  rw [range, outside]
  rfl

/-- It is enough that a part is made, once the range is accepted, as a new object of the elements
between the two places. -/
theorem cutsOut_of_range {α : Type} {kind : ArrayKind α}
    {create : Nat × Nat → Heap → Value × Heap} (isStart : IsBound start) (isStop : IsBound stop)
    (length : (kind.elements heap address).length = size)
    (outcome : substring (kind.value address) start stop heap =
      (range (kind.value address) start stop size >>= fun limits =>
        HeapM.make (create limits)) heap)
    (creates : ∀ first last, ∃ after,
      create (first, last) heap = (kind.value (kind.count heap), after) ∧ heap.Extends after ∧
      kind.count heap < kind.count after ∧ kind.elements after (kind.count heap) =
        ((kind.elements heap address).drop first).take (last - first)) :
    kind.CutsOut heap address start stop (placeOf start size 0) (placeOf stop size size) := by
  have acceptance : (∃ limits, range? start stop size = some limits) ↔ _ :=
    exists_range?_iff isStart isStop
  cases limits : range? start stop size with
  | none =>
      rw [run_bind, range_of_outside _ limits] at outcome
      constructor
      case succeeds_iff =>
        rw [outcome, length, ← acceptance, limits]
        constructor
        · rintro ⟨value, after, ⟨⟩⟩
        · rintro ⟨places, ⟨⟩⟩
      case made =>
        rw [outcome]
        rintro value after ⟨⟩
      case refused =>
        rw [outcome]
        rintro fault after ⟨⟩
        exact ⟨Heap.extends_listWithTail _ _ _, _, rfl, Heap.elements_list (.refl _)⟩
  | some places =>
      obtain ⟨first, last⟩ := places
      obtain ⟨later, created, grown, oneMore, holds⟩ := creates first last
      simp only [run_bind, range_of_inside _ limits, HeapM.make, created] at outcome
      constructor
      case succeeds_iff =>
        rw [outcome, length, ← acceptance, limits]
        exact ⟨fun _ => ⟨_, rfl⟩, fun _ => ⟨_, _, rfl⟩⟩
      case made =>
        rw [outcome]
        rintro value after ⟨⟩
        obtain ⟨isFirst, isLast, -, -⟩ := (range?_eq_some_iff isStart isStop).mp limits
        refine ⟨grown, _, rfl, Nat.le_refl _, oneMore, ?_⟩
        rw [holds, ← isFirst, ← isLast, Int.toNat_natCast, Int.toNat_sub]
      case refused =>
        rw [outcome]
        rintro fault after ⟨⟩

/-- Cutting out of a string finds the range and copies it. -/
theorem substring_string (isStart : IsBound start) (isStop : IsBound stop) :
    substring (.string address) start stop heap =
      (range (.string address) start stop (heap.string address).size >>= fun limits =>
        HeapM.make (·.newString ((heap.string address).extract limits.1 limits.2))) heap := by
  simp only [substring, run_bind, HeapM.look, checkBound_of_isBound isStart,
    checkBound_of_isBound isStop]

/-- A range of a string is copied to a new string. -/
theorem substring_string_of_range (isStart : IsBound start) (isStop : IsBound stop)
    (inside : range? start stop (heap.string address).size = some (first, last)) :
    substring (.string address) start stop heap =
      (.ok (.string heap.strings.size),
        (heap.newString ((heap.string address).extract first last)).2) := by
  rw [substring_string isStart isStop, run_bind, range_of_inside _ inside]
  rfl

/-- Cutting out of a vector finds the range and copies it. -/
theorem substring_vector (isStart : IsBound start) (isStop : IsBound stop) :
    substring (.vector address) start stop heap =
      (range (.vector address) start stop (heap.vector address).size >>= fun limits =>
        HeapM.make (·.newVector ((heap.vector address).extract limits.1 limits.2))) heap := by
  simp only [substring, run_bind, HeapM.look, checkBound_of_isBound isStart,
    checkBound_of_isBound isStop]

/-- Cutting out of a string does what it is meant to do. -/
theorem cutsOut_strings (isStart : IsBound start) (isStop : IsBound stop) :
    strings.CutsOut heap address start stop (placeOf start (heap.string address).size 0)
      (placeOf stop (heap.string address).size (heap.string address).size) := by
  refine cutsOut_of_range isStart isStop rfl (substring_string isStart isStop) ?_
  intro first last
  refine ⟨(heap.newString ((heap.string address).extract first last)).2, rfl,
    Heap.extends_newString _ _, ?_, ?_⟩
  · simp [strings, Heap.newString]
  · simp [strings, Heap.string_newString]

/-- Cutting out of a vector does what it is meant to do. -/
theorem cutsOut_vectors (isStart : IsBound start) (isStop : IsBound stop) :
    vectors.CutsOut heap address start stop (placeOf start (heap.vector address).size 0)
      (placeOf stop (heap.vector address).size (heap.vector address).size) := by
  refine cutsOut_of_range isStart isStop rfl (substring_vector isStart isStop) ?_
  intro first last
  refine ⟨(heap.newVector ((heap.vector address).extract first last)).2, rfl,
    Heap.extends_newVector _ _, ?_, ?_⟩
  · simp [vectors, Heap.newVector]
  · simp [vectors, Heap.newVector, Heap.vector, Store.read_push]

end CuttingOut

/-! ## The parts on both sides of a place -/

/-- A sequence cut in two is joined to itself. -/
theorem join_extract (bytes : PackedBytes) (place : Nat) :
    PackedBytes.join [bytes.extract 0 place, bytes.extract place bytes.size] = bytes := by
  apply ByteArray.ext
  apply Array.toList_inj.mp
  have rest : (bytes.data.toList.drop place).take (bytes.size - place) =
      bytes.data.toList.drop place :=
    List.take_of_length_le (by simp)
  simp [PackedBytes.data_join, rest]

/-- Two new strings are joined to a third one. -/
theorem concat_newStrings {heap middle parts : Heap} {left right : PackedBytes}
    (leftMade : (heap.newString left).2 = middle) (rightMade : (middle.newString right).2 = parts) :
    concat [.string heap.strings.size, .string middle.strings.size] parts =
      (.ok (.string parts.strings.size), (parts.newString (.join [left, right])).2) := by
  have later : heap.strings.size ≠ middle.strings.size := by
    rw [← leftMade]
    simp [Heap.newString]
  have isLeft : parts.string heap.strings.size = left := by
    rw [← rightMade, Heap.string_newString, if_neg later, ← leftMade, Heap.string_newString,
      if_pos rfl]
  have isRight : parts.string middle.strings.size = right := by
    rw [← rightMade, Heap.string_newString, if_pos rfl]
  rw [← isLeft, ← isRight]
  rfl

/-- Both parts are there when the place lies inside. -/
theorem exists_range?_both {k : Int64} (low : -(size : Int) ≤ k.toInt) (high : k.toInt ≤ size) :
    ∃ place, range? .nil (.int k) size = some (0, place) ∧
      range? (.int k) .nil size = some (place, size) := by
  have isNil : IsBound .nil := .inl rfl
  have isInt : IsBound (.int k) := .inr ⟨k, rfl⟩
  have nonnegative : 0 ≤ placeOf (.int k) size 0 := by
    unfold placeOf
    dsimp only
    split <;> omega
  have within : placeOf (.int k) size 0 ≤ size := by
    unfold placeOf
    dsimp only
    split <;> omega
  refine ⟨(placeOf (.int k) size 0).toNat, (range?_eq_some_iff isNil isInt).mpr ?_,
    (range?_eq_some_iff isInt isNil).mpr ?_⟩
  · exact ⟨rfl, Int.toNat_of_nonneg nonnegative, Nat.zero_le _, Int.toNat_le.mpr within⟩
  · exact ⟨Int.toNat_of_nonneg nonnegative, rfl, Int.toNat_le.mpr within, Nat.le_refl _⟩

/-- The parts of a string before and behind a place, joined. -/
def joinParts (string place : Value) : HeapM Value := do
  let front ← substring string .nil place
  let back ← substring string place .nil
  concat [front, back]

/-- The two parts of a string, cut at any place in it, are joined to the same contents. -/
theorem joinParts_string {heap : Heap} {address : Address} {k : Int64}
    (low : -((heap.string address).size : Int) ≤ k.toInt)
    (high : k.toInt ≤ (heap.string address).size) :
    ∃ joined after, joinParts (.string address) (.int k) heap = (.ok (.string joined), after) ∧
      after.string joined = heap.string address := by
  have isNil : IsBound .nil := .inl rfl
  have isInt : IsBound (.int k) := .inr ⟨k, rfl⟩
  obtain ⟨place, before, behind⟩ := exists_range?_both low high
  have frontMade := substring_string_of_range isNil isInt before
  generalize middleIs : (heap.newString ((heap.string address).extract 0 place)).2 = middle
    at frontMade
  -- The second part is cut out of a heap that has the first part already.
  have kept : middle.string address = heap.string address := by
    rw [← middleIs]
    exact Heap.string_newString_extract ..
  have backMade := substring_string_of_range isInt isNil (kept.symm ▸ behind)
  rw [kept] at backMade
  generalize partsAre :
    (middle.newString ((heap.string address).extract place (heap.string address).size)).2 = parts
    at backMade
  have joined := concat_newStrings middleIs partsAre
  rw [join_extract] at joined
  refine ⟨parts.strings.size, (parts.newString (heap.string address)).2, ?_, ?_⟩
  · rw [joinParts, run_bind, frontMade]
    dsimp only
    rw [run_bind, backMade]
    exact joined
  · rw [Heap.string_newString, if_pos rfl]

/-! ## All bounds -/

/-- For all heaps:
- Of every string and vector and for all bounds that are `nil` or an integer, the part between the
  bounds is there exactly when the places that they stand for lie inside and in order. It is a new
  object of exactly the elements between the places. Otherwise the bounds are refused as out of
  range, and shown in a list.
- The places between which elements are taken never lie outside.
- The parts of a string before and behind a place, which may be counted from the end, join to a
  string of the same bytes. -/
theorem substring_by_places (heap : Heap) :
    (∀ start stop, IsBound start → IsBound stop →
      (∀ address, strings.CutsOut heap address start stop
        (placeOf start (heap.string address).size 0)
        (placeOf stop (heap.string address).size (heap.string address).size)) ∧
      (∀ address, vectors.CutsOut heap address start stop
        (placeOf start (heap.vector address).size 0)
        (placeOf stop (heap.vector address).size (heap.vector address).size)) ∧
      ∀ size first last, range? start stop size = some (first, last) →
        first ≤ last ∧ last ≤ size) ∧
    ∀ address (k : Int64), -((heap.string address).size : Int) ≤ k.toInt →
      k.toInt ≤ (heap.string address).size →
      ∃ joined after, joinParts (.string address) (.int k) heap = (.ok (.string joined), after) ∧
        after.string joined = heap.string address := by
  refine ⟨fun start stop isStart isStop => ⟨fun address => cutsOut_strings isStart isStop,
    fun address => cutsOut_vectors isStart isStop, ?_⟩, fun address k => joinParts_string⟩
  intro size first last inside
  exact ((range?_eq_some_iff isStart isStop).mp inside).2.2

/-- A heap whose only object is the string `hello`. -/
def hello : Heap :=
  (({} : Heap).newString (.ofBytes #[104, 101, 108, 108, 111])).2

/-- From 1 to `-1` are the three bytes in the middle. The extreme integers are no places of the
string, and at the place `-2` it can be split and joined again. -/
theorem parts_of_hello :
    (∃ new after, substring (.string 0) (.int 1) (.int (-1)) hello = (.ok (.string new), after) ∧
      (after.string new).data.toList = [101, 108, 108]) ∧
    (¬ ∃ value after, substring (.string 0) (.int Int64.minValue) .nil hello = (.ok value, after)) ∧
    (¬ ∃ value after, substring (.string 0) .nil (.int Int64.maxValue) hello = (.ok value, after)) ∧
    ∃ joined after, joinParts (.string 0) (.int (-2)) hello = (.ok (.string joined), after) ∧
      after.string joined = hello.string 0 := by
  obtain ⟨cutsOut, joins⟩ := substring_by_places hello
  have middle := (cutsOut (.int 1) (.int (-1)) (.inr ⟨_, rfl⟩) (.inr ⟨_, rfl⟩)).1 0
  have least := (cutsOut (.int Int64.minValue) .nil (.inr ⟨_, rfl⟩) (.inl rfl)).1 0
  have greatest := (cutsOut .nil (.int Int64.maxValue) (.inl rfl) (.inr ⟨_, rfl⟩)).1 0
  refine ⟨?_, mt least.succeeds_iff.mp (by decide), mt greatest.succeeds_iff.mp (by decide),
    joins 0 (-2) (by decide) (by decide)⟩
  obtain ⟨value, after, outcome⟩ := middle.succeeds_iff.mpr (by decide)
  obtain ⟨-, new, rfl, -, -, holds⟩ := middle.made value after outcome
  exact ⟨new, after, outcome, holds⟩

end Sequences

end ByteLisp
