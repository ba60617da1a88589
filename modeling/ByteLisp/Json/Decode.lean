import ByteLisp.Bytes
import ByteLisp.Json.Basic

/-!
# Taking JSON values apart

A record is an object with a member for each field, or an array of the fields
in their order. Unknown members of an object are skipped, a known one may not
come twice. A choice is a name, or an object whose only member is the name with
the content of the choice; a choice without content may also have `null`.
-/

namespace ByteLisp

namespace Json

/-- The text of a string. -/
def text? : Json → Option String
  | .string text => text
  | _ => none

/-- The truth value of a JSON value. -/
def bool? : Json → Option Bool
  | .bool truth => some truth
  | _ => none

/-- The integer that a number writes. -/
def int? : Json → Option Int
  | .number numeral => numeral.int?
  | _ => none

/-- A natural number below a bound. -/
def natBelow? (bound : Nat) (value : Json) : Option Nat :=
  match value.int? with
  | some n => if 0 ≤ n ∧ n < bound then some n.toNat else none
  | none => none

/-- The byte of a JSON number. -/
def byte? (value : Json) : Option UInt8 :=
  (value.natBelow? UInt8.size).map UInt8.ofNat

/-- The number of two bytes of a JSON number. -/
def word? (value : Json) : Option UInt16 :=
  (value.natBelow? UInt16.size).map UInt16.ofNat

/-- The number of four bytes of a JSON number. -/
def long? (value : Json) : Option UInt32 :=
  (value.natBelow? UInt32.size).map UInt32.ofNat

/-- A signed 64-bit integer. -/
def int64? (value : Json) : Option Int64 :=
  match value.int? with
  | some n => if -0x8000000000000000 ≤ n ∧ n < 0x8000000000000000 then some (Int64.ofInt n) else none
  | none => none

/-- An integer within the range that is read comes back. -/
theorem int?_ofInt {n : Int} (within : n.natAbs ≤ Numeral.maxMagnitude) :
    (ofInt n).int? = some n :=
  Numeral.int?_ofInt within

/-- A natural number below the bound is read back. -/
theorem natBelow?_ofNat {bound n : Nat} (below : n < bound) (fits : bound ≤ UInt64.size) :
    (ofNat n).natBelow? bound = some n := by
  have within : (n : Int).natAbs ≤ Numeral.maxMagnitude := by
    simp only [Int.natAbs_natCast, Numeral.maxMagnitude]
    omega
  simp [natBelow?, ofNat, int?_ofInt within, below]

@[simp] theorem byte?_ofNat (byte : UInt8) : (ofNat byte.toNat).byte? = some byte := by
  simp [byte?, natBelow?_ofNat byte.toNat_lt (by decide)]

@[simp] theorem word?_ofNat (word : UInt16) : (ofNat word.toNat).word? = some word := by
  simp [word?, natBelow?_ofNat word.toNat_lt (by decide)]

@[simp] theorem long?_ofNat (long : UInt32) : (ofNat long.toNat).long? = some long := by
  simp [long?, natBelow?_ofNat long.toNat_lt (by decide)]

@[simp] theorem int64?_ofInt (n : Int64) : (ofInt n.toInt).int64? = some n := by
  have low := n.le_toInt
  have high := n.toInt_lt
  have within : n.toInt.natAbs ≤ Numeral.maxMagnitude := by
    simp only [Numeral.maxMagnitude, UInt64.size]
    omega
  simp only [int64?, int?_ofInt within]
  rw [if_pos ⟨low, high⟩, Int64.ofInt_toInt]

/-- A floating point number; integers are taken too. -/
def double? : Json → Option Double
  | .number numeral => numeral.double?
  | _ => none

/-- Whether the name of a member can be read and told from the field names. -/
def isSpelled (member : Option String × Json) : Bool :=
  member.1.isSome

/-- The value of the member with a name; the outer result is missing when there
are several. -/
def member? (members : List (Option String × Json)) (name : String) : Option (Option Json) :=
  match members.filter fun member => member.1 = some name with
  | [] => some none
  | [(_, value)] => some (some value)
  | _ => none

/-- The fields of a record in their order, each one missing or present. -/
def fields? (names : List String) : Json → Option (List (Option Json))
  | .object members => if members.all isSpelled then names.mapM (member? members) else none
  | .array items =>
    if items.length ≤ names.length then
      some (items.map some ++ List.replicate (names.length - items.length) none)
    else none
  | _ => none

/-- The name of a choice with its content. -/
def choice? : Json → Option (String × Option Json)
  | .string (some name) => some (name, none)
  | .object [(some name, content)] => some (name, some content)
  | _ => none

/-- The name of a choice that has no content. -/
def bareChoice? (value : Json) : Option String :=
  match value.choice? with
  | some (name, none) => some name
  | some (name, some .null) => some name
  | _ => none

/-- The value of a choice with content. -/
def ofChoice (name : String) (content : Json) : Json :=
  ofMembers [(name, content)]

end Json

end ByteLisp
