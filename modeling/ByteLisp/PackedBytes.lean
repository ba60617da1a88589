import ByteLisp.Bytes

/-!
# Packed bytes

The contents of strings are kept packed, in one byte of memory for each byte.
Two packed sequences are compared place by place up to the first difference;
`same_iff` and `before_iff` say what the comparison decides.
-/

namespace ByteLisp

/-- A finite sequence of bytes in packed form. -/
abbrev PackedBytes := ByteArray

instance : DecidableEq PackedBytes := ByteArray.instDecidableEq

namespace PackedBytes

/-- Packs bytes. -/
def ofBytes (bytes : Bytes) : PackedBytes :=
  ⟨bytes⟩

/-- The bytes of a packed sequence. -/
def toBytes (packed : PackedBytes) : Bytes :=
  packed.data

/-- The UTF-8 bytes of a text. -/
def ofText (text : String) : PackedBytes :=
  text.toUTF8

/-- The text these bytes spell, when they are well-formed UTF-8. -/
def text? (packed : PackedBytes) : Option String :=
  String.fromUTF8? packed

/-- The sequences one after the other. -/
def join (pieces : List PackedBytes) : PackedBytes :=
  let size := pieces.foldl (fun size piece => size + piece.size) 0
  pieces.foldl (fun joined piece => joined ++ piece) (ByteArray.emptyWithCapacity size)

/-- The order of two sequences that agree before `place`: byte by byte, a proper
beginning coming before the whole. -/
def compareFrom (left right : PackedBytes) (place : Nat) : Ordering :=
  if inside : place < left.size ∧ place < right.size then
    have := inside.1
    have := inside.2
    if left[place] < right[place] then .lt
    else if right[place] < left[place] then .gt
    else compareFrom left right (place + 1)
  else compare left.size right.size
termination_by left.size - place

/-- Whether the left sequence comes strictly before the right one. -/
def before (left right : PackedBytes) : Bool :=
  compareFrom left right 0 == .lt

/-- Whether two sequences hold the same bytes. -/
def same (left right : PackedBytes) : Bool :=
  left.size == right.size && compareFrom left right 0 == .eq

@[simp] theorem toBytes_ofBytes (bytes : Bytes) : toBytes (ofBytes bytes) = bytes := rfl

@[simp] theorem ofBytes_toBytes (packed : PackedBytes) : ofBytes (toBytes packed) = packed := rfl

/-- Joining puts the bytes one after the other. -/
theorem data_join (pieces : List PackedBytes) :
    (join pieces).data.toList = pieces.flatMap fun piece => piece.data.toList := by
  have from_start (start : PackedBytes) :
      (pieces.foldl (fun joined piece => joined ++ piece) start).data.toList =
        start.data.toList ++ pieces.flatMap fun piece => piece.data.toList := by
    induction pieces generalizing start with
    | nil => simp
    | cons piece pieces ih => simp [ih, ByteArray.data_append]
  exact from_start (ByteArray.emptyWithCapacity _)

/-- The bytes from a place on: the byte there, and the bytes after it. -/
theorem drop_eq_cons {packed : PackedBytes} {place : Nat} (inside : place < packed.size) :
    packed.data.toList.drop place = packed[place] :: packed.data.toList.drop (place + 1) :=
  List.drop_eq_getElem_cons inside

/-- Sequences of one length compare as equal when the bytes from `place` on are
the same. -/
theorem compareFrom_eq_eq_iff {left right : PackedBytes} (sizes : left.size = right.size)
    (place : Nat) :
    compareFrom left right place = .eq ↔
      left.data.toList.drop place = right.data.toList.drop place := by
  fun_induction compareFrom left right place with
  | case1 place inside _ _ less =>
    rw [drop_eq_cons inside.1, drop_eq_cons inside.2]
    simp only [List.cons.injEq, reduceCtorEq, false_iff]
    exact fun same => UInt8.ne_of_lt less same.1
  | case2 place inside _ _ _ greater =>
    rw [drop_eq_cons inside.1, drop_eq_cons inside.2]
    simp only [List.cons.injEq, reduceCtorEq, false_iff]
    exact fun same => UInt8.ne_of_lt greater same.1.symm
  | case3 place inside _ _ notLess notGreater ih =>
    rw [ih, drop_eq_cons inside.1, drop_eq_cons inside.2]
    have equal := UInt8.le_antisymm (UInt8.not_lt.mp notGreater) (UInt8.not_lt.mp notLess)
    simp [equal]
  | case4 place outside =>
    have left_done : left.data.toList.length ≤ place := by
      simp only [Array.length_toList, ← ByteArray.size_data] at *
      omega
    have right_done : right.data.toList.length ≤ place := by
      simp only [Array.length_toList, ← ByteArray.size_data] at *
      omega
    simp [sizes, List.drop_eq_nil_of_le left_done, List.drop_eq_nil_of_le right_done]

/-- The comparison finds exactly the sequences that are the same. -/
theorem same_iff (left right : PackedBytes) : left.same right = true ↔ left = right := by
  constructor
  · intro agree
    simp only [same, Bool.and_eq_true, beq_iff_eq] at agree
    have bytes := (compareFrom_eq_eq_iff agree.1 0).mp agree.2
    simp only [List.drop_zero] at bytes
    exact ByteArray.ext (Array.toList_inj.mp bytes)
  · rintro rfl
    simp [same, (compareFrom_eq_eq_iff rfl 0).mpr rfl]

/-- From a place that neither sequence lies before, a sequence comes first when its
bytes from there on do. -/
theorem compareFrom_eq_lt_iff {left right : PackedBytes} {place : Nat}
    (left_reaches : place ≤ left.size) (right_reaches : place ≤ right.size) :
    compareFrom left right place = .lt ↔
      left.data.toList.drop place < right.data.toList.drop place := by
  fun_induction compareFrom left right place with
  | case1 place inside _ _ less =>
    rw [drop_eq_cons inside.1, drop_eq_cons inside.2]
    simp [List.cons_lt_cons_iff, less]
  | case2 place inside _ _ notLess greater =>
    rw [drop_eq_cons inside.1, drop_eq_cons inside.2]
    simp [List.cons_lt_cons_iff, notLess, (UInt8.ne_of_lt greater).symm]
  | case3 place inside _ _ notLess notGreater ih =>
    rw [ih inside.1 inside.2, drop_eq_cons inside.1, drop_eq_cons inside.2]
    have equal := UInt8.le_antisymm (UInt8.not_lt.mp notGreater) (UInt8.not_lt.mp notLess)
    simp [equal]
  | case4 place outside =>
    rw [Nat.compare_eq_lt]
    by_cases left_done : left.size ≤ place
    · rw [List.drop_eq_nil_of_le (by simpa using left_done)]
      by_cases right_done : right.size ≤ place
      · rw [List.drop_eq_nil_of_le (by simpa using right_done)]
        simp
        omega
      · rw [drop_eq_cons (Nat.lt_of_not_le right_done)]
        simp
        omega
    · have right_done : right.data.toList.length ≤ place := by
        simp only [Array.length_toList, ByteArray.size_data]
        omega
      rw [List.drop_eq_nil_of_le right_done]
      simp
      omega

/-- The order of packed sequences is the order of their lists of bytes. -/
theorem before_iff (left right : PackedBytes) :
    left.before right = true ↔ left.data.toList < right.data.toList := by
  simp [before, compareFrom_eq_lt_iff (Nat.zero_le _) (Nat.zero_le _)]

end PackedBytes

end ByteLisp
