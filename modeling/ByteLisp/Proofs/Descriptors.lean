import ByteLisp.Code.Json
import ByteLisp.Proofs.LiteralJson
import ByteLisp.Proofs.WrittenParameters

/-!
# Argument descriptors

An argument descriptor has an integer form and a JSON form. `Descriptor.integer_forms` says which
integers are descriptors, and that a descriptor and its integer form determine each other, so that
a function that is made with the integer form takes its arguments as the descriptor says.

The fields of a descriptor are checked against each other wherever it is made of fields or read from
an integer. They are not where it is read from JSON text. `Descriptor.fields_by_origin` says what
holds of a descriptor by its origin, and `Descriptor.unchecked_fields` has two texts whose
descriptors are lost in their integer form.
-/

namespace ByteLisp

namespace Descriptor

/-- Fields make a descriptor exactly when they are valid. -/
theorem ofFields_eq_ok_iff {required : UInt8} {total : UInt16} {rest : Bool}
    {descriptor : Descriptor} :
    ofFields required total rest = .ok descriptor ↔
      (⟨required, total, rest⟩ : Descriptor).Valid ∧ descriptor = ⟨required, total, rest⟩ := by
  unfold ofFields
  dsimp only
  split
  next valid => rw [and_iff_right valid, Except.ok.injEq, eq_comm]
  next invalid => simp [invalid]

/-- The fields that are read from an integer that is not negative. -/
theorem decode_of_bits {raw : Int64} {bits : Nat} (same : raw.toInt = bits) :
    decode raw =
      if bits < 2 ^ 24 ∧ bits % 128 ≤ bits / 256 then
        .ok ⟨UInt8.ofNat (bits % 128), UInt16.ofNat (bits / 256), decide (bits / 128 % 2 = 1)⟩
      else .error (.invalidDescriptor raw) := by
  simp only [decode, same, Int.toNat_natCast]
  refine if_congr ?_ rfl rfl
  simp only [Valid, maxRequired, UInt8.toNat_ofNat', UInt16.toNat_ofNat']
  omega

/-- No negative number is a descriptor. -/
theorem decode_of_neg {raw : Int64} (negative : raw.toInt < 0) :
    decode raw = .error (.invalidDescriptor raw) :=
  if_neg fun accepted => Int.not_le.mpr negative accepted.1

/-- The numbers that are descriptors, by their bits. -/
theorem exists_decode_iff (raw : Int64) :
    (∃ descriptor, decode raw = .ok descriptor) ↔
      0 ≤ raw.toInt ∧ raw.toInt < 2 ^ 24 ∧ raw.toInt % 128 ≤ raw.toInt / 256 := by
  obtain negative | nonnegative := Int.lt_or_le raw.toInt 0
  · simp [decode_of_neg negative, Int.not_le.mpr negative]
  · obtain ⟨bits, same⟩ := Int.eq_ofNat_of_zero_le nonnegative
    rw [decode_of_bits same, same]
    split
    next accepted =>
      simp only [Except.ok.injEq, exists_eq', true_iff]
      omega
    next refused =>
      simp only [reduceCtorEq, exists_false, false_iff]
      omega

/-- The integer form of a descriptor is the integer that it was read from. -/
theorem encode_of_decode {raw : Int64} {descriptor : Descriptor}
    (decoded : decode raw = .ok descriptor) : descriptor.encode = raw := by
  have nonnegative := ((exists_decode_iff raw).mp ⟨descriptor, decoded⟩).1
  obtain ⟨bits, same⟩ := Int.eq_ofNat_of_zero_le nonnegative
  rw [decode_of_bits same] at decoded
  split at decoded
  next accepted =>
    cases decoded
    -- The three fields cover all bits that may be set.
    have low : (UInt8.ofNat (bits % 128)).toNat = bits % 128 := by
      rw [UInt8.toNat_ofNat']
      omega
    have high : (UInt16.ofNat (bits / 256)).toNat = bits / 256 := by
      rw [UInt16.toNat_ofNat']
      omega
    have whole : bits % 128 % 128 + (if decide (bits / 128 % 2 = 1) = true then 128 else 0) +
        256 * (bits / 256) = bits := by
      split <;> simp only [decide_eq_true_eq] at * <;> omega
    rw [encode, low, high, whole, ← Int64.ofInt_toInt raw, same]
    rfl
  next => cases decoded

/-- A function that is made with the integer form of a descriptor has the descriptor as its
parameters. -/
theorem make_lexical {descriptor : Descriptor} (valid : descriptor.Valid) (code : Bytes)
    (constants : Array Value) (maxDepth : Nat) (documentation : Option Documentation)
    (interactive : Option Value) (heap : Heap) :
    ∃ address after,
      Functions.make (.int descriptor.encode) code constants maxDepth documentation interactive
        heap = (.ok (.function address), after) ∧
      after.function address =
        ⟨.lexical descriptor, code, constants, maxDepth, documentation, interactive⟩ := by
  have read : Parameters.ofValue heap (.int descriptor.encode) = .ok (.lexical descriptor) := by
    rw [Parameters.ofValue, decode_encode valid]
  refine ⟨heap.functions.size, (heap.newFunction
    ⟨.lexical descriptor, code, constants, maxDepth, documentation, interactive⟩).2, ?_, ?_⟩
  · simp only [Functions.make, run_bind, HeapM.look, read]
    rfl
  · simp [Heap.newFunction, Heap.function, Store.read_push]

/-- The integer form of argument descriptors:
- An integer is read as a descriptor exactly when it is not negative, is below `2 ^ 24`, and holds
  no more required arguments than arguments in all. The descriptor has this integer as its form.
- Fields are accepted exactly when there are at most 127 required arguments, and no more of them
  than arguments in all. The descriptor has these fields and is read from its integer form again.
  Every function that is made with this form has the descriptor as its parameters. -/
theorem integer_forms :
    (∀ raw : Int64,
      ((∃ descriptor, decode raw = .ok descriptor) ↔
        0 ≤ raw.toInt ∧ raw.toInt < 2 ^ 24 ∧ raw.toInt % 128 ≤ raw.toInt / 256) ∧
      ∀ descriptor, decode raw = .ok descriptor → descriptor.encode = raw) ∧
    ∀ (required : UInt8) (total : UInt16) (rest : Bool),
      ((∃ descriptor, ofFields required total rest = .ok descriptor) ↔
        required.toNat ≤ 127 ∧ required.toNat ≤ total.toNat) ∧
      ∀ descriptor, ofFields required total rest = .ok descriptor →
        descriptor = ⟨required, total, rest⟩ ∧
        decode descriptor.encode = .ok descriptor ∧
        ∀ code constants maxDepth documentation interactive heap, ∃ address after,
          Functions.make (.int descriptor.encode) code constants maxDepth documentation interactive
            heap = (.ok (.function address), after) ∧
          after.function address =
            ⟨.lexical descriptor, code, constants, maxDepth, documentation, interactive⟩ := by
  refine ⟨fun raw => ⟨exists_decode_iff raw, fun descriptor => encode_of_decode⟩,
    fun required total rest => ⟨?_, ?_⟩⟩
  · simp only [ofFields_eq_ok_iff, exists_and_left, exists_eq, and_true]
    exact Iff.rfl
  · intro descriptor accepted
    obtain ⟨valid, rfl⟩ := ofFields_eq_ok_iff.mp accepted
    exact ⟨rfl, decode_encode valid, make_lexical valid⟩

/-! ## Where descriptors come from -/

/-- What a descriptor can be made or read from. -/
inductive Origin where
  | fields (required : UInt8) (total : UInt16) (rest : Bool)
  /-- Required arguments only. -/
  | fixed (required : UInt8)
  | integer (raw : Int64)
  /-- A JSON text. -/
  | text (bytes : Bytes)

/-- The descriptor of an origin, unless it is refused. -/
def Origin.descriptor? : Origin → Option Descriptor
  | fields required total rest => (ofFields required total rest).toOption
  | fixed required => (Descriptor.fixed required).toOption
  | integer raw => (decode raw).toOption
  | text bytes => (Json.parse? bytes).bind ofJson?

/-- A result is the value that it succeeds with. -/
theorem toOption_eq_some_iff {ε α : Type} {result : Except ε α} {value : α} :
    result.toOption = some value ↔ result = .ok value := by
  cases result <;> simp [Except.toOption]

/-- The fields are checked wherever they do not come from a text. -/
theorem Origin.valid_of_ne_text {origin : Origin} {descriptor : Descriptor}
    (given : origin.descriptor? = some descriptor) (other : ∀ bytes, origin ≠ .text bytes) :
    descriptor.Valid := by
  cases origin with
  | text bytes => exact absurd rfl (other bytes)
  | integer raw => exact valid_decode (toOption_eq_some_iff.mp given)
  | fixed required | fields required total rest =>
      obtain ⟨valid, rfl⟩ := ofFields_eq_ok_iff.mp (toOption_eq_some_iff.mp given)
      exact valid

/-- Every valid descriptor can be made from its fields. -/
theorem Origin.descriptor?_fields {descriptor : Descriptor} (valid : descriptor.Valid) :
    (Origin.fields descriptor.required descriptor.total descriptor.rest).descriptor? =
      some descriptor :=
  toOption_eq_some_iff.mpr (ofFields_eq_ok_iff.mpr ⟨valid, rfl⟩)

/-- The fields of a descriptor as JSON values in their order. -/
def jsonFields (descriptor : Descriptor) : List Json :=
  [.ofNat descriptor.required.toNat, .ofNat descriptor.total.toNat, .bool descriptor.rest]

/-- The fields of a descriptor can be written as JSON. -/
theorem writable_jsonFields (descriptor : Descriptor) :
    ∀ field ∈ descriptor.jsonFields, field.Writable := by
  simp only [jsonFields, List.forall_mem_cons]
  exact ⟨Json.writable_ofInt _, Json.writable_ofInt _, .bool _, List.forall_mem_nil _⟩

/-- Every descriptor is read from a text that has its fields in an array. -/
theorem descriptor?_array (descriptor : Descriptor) :
    (Origin.text (Bytes.ofText (Json.array descriptor.jsonFields).render)).descriptor? =
      some descriptor := by
  rw [Origin.descriptor?, Json.parse?_render (.array descriptor.writable_jsonFields)]
  simp [ofJson?, Json.fields?, jsonFields, Json.bool?]

/-- Every descriptor is read from a text that has its fields in an object. -/
theorem descriptor?_object (descriptor : Descriptor) :
    (Origin.text (Bytes.ofText descriptor.toJson.render)).descriptor? = some descriptor := by
  have zipped : descriptor.toJson =
      .ofMembers (["required", "total", "rest"].zip descriptor.jsonFields) := rfl
  have writable : descriptor.toJson.Writable := by
    rw [zipped]
    exact Json.writable_ofMembers fun member present =>
      descriptor.writable_jsonFields _ (List.of_mem_zip present).2
  rw [Origin.descriptor?, Json.parse?_render writable]
  simp [ofJson?, toJson, Json.ofMembers, Json.fields?, Json.isSpelled, Json.member?, Json.bool?]

/-- Counting the optional arguments gives what the required ones lack of all. -/
theorem optional?_eq_some_iff (descriptor : Descriptor) (count : Nat) :
    descriptor.optional? = some count ↔
      descriptor.required.toNat + count = descriptor.total.toNat := by
  unfold optional?
  split
  · rw [Option.some_inj]
    omega
  · simp only [reduceCtorEq, false_iff]
    omega

/-- There is no number of optional arguments exactly when more are required than there are. -/
theorem optional?_eq_none_iff (descriptor : Descriptor) :
    descriptor.optional? = none ↔ descriptor.total.toNat < descriptor.required.toNat := by
  unfold optional?
  split
  · simp only [reduceCtorEq, false_iff]
    omega
  · simp only [true_iff]
    omega

/-- For every descriptor:
- It has an origin other than a JSON text exactly when it has at most 127 required arguments and no
  more of them than arguments in all.
- It is read from two JSON texts, whatever its fields are: an object and an array of them.
- It comes back from its integer form exactly when it has at most 127 required arguments and no more
  of them than arguments in all.
- The optional arguments are counted by a subtraction. Where there are no more required arguments
  than arguments in all, it gives the number that makes up all arguments together with the required
  ones; otherwise it goes below zero and gives none. -/
theorem fields_by_origin (descriptor : Descriptor) :
    ((∃ origin : Origin, origin.descriptor? = some descriptor ∧ ∀ bytes, origin ≠ .text bytes) ↔
      descriptor.required.toNat ≤ 127 ∧ descriptor.required.toNat ≤ descriptor.total.toNat) ∧
    (Origin.text (Bytes.ofText descriptor.toJson.render)).descriptor? = some descriptor ∧
    (Origin.text (Bytes.ofText (Json.array descriptor.jsonFields).render)).descriptor? =
      some descriptor ∧
    (decode descriptor.encode = .ok descriptor ↔
      descriptor.required.toNat ≤ 127 ∧ descriptor.required.toNat ≤ descriptor.total.toNat) ∧
    (∀ count, descriptor.optional? = some count ↔
      descriptor.required.toNat + count = descriptor.total.toNat) ∧
    (descriptor.optional? = none ↔ descriptor.total.toNat < descriptor.required.toNat) := by
  refine ⟨⟨?_, ?_⟩, descriptor.descriptor?_object, descriptor.descriptor?_array,
    ⟨valid_decode, decode_encode⟩, descriptor.optional?_eq_some_iff,
    descriptor.optional?_eq_none_iff⟩
  · rintro ⟨origin, given, other⟩
    exact Origin.valid_of_ne_text given other
  · intro valid
    exact ⟨_, Origin.descriptor?_fields valid, by rintro bytes ⟨⟩⟩

/-- Two texts whose fields contradict each other or the layout are read. The first descriptor has
no number of optional arguments and its integer form is refused; the integer form of the second is
read as another descriptor. -/
theorem unchecked_fields :
    (∃ descriptor, (Origin.text (Bytes.ofText
        "\x7b\"required\":5,\"total\":2,\"rest\":false\x7d")).descriptor? = some descriptor ∧
      descriptor.total.toNat < descriptor.required.toNat ∧ descriptor.optional? = none ∧
      decode descriptor.encode = .error (.invalidDescriptor 517)) ∧
    ∃ descriptor, (Origin.text (Bytes.ofText
        "\x7b\"required\":200,\"total\":300,\"rest\":false\x7d")).descriptor? = some descriptor ∧
      127 < descriptor.required.toNat ∧
      decode descriptor.encode = .ok ⟨72, 300, false⟩ := by
  have first : (toJson ⟨5, 2, false⟩).render =
      "\x7b\"required\":5,\"total\":2,\"rest\":false\x7d" := by decide +kernel
  have second : (toJson ⟨200, 300, false⟩).render =
      "\x7b\"required\":200,\"total\":300,\"rest\":false\x7d" := by decide +kernel
  rw [← first, ← second]
  exact ⟨⟨_, descriptor?_object _, by decide, by decide, by decide⟩,
    ⟨_, descriptor?_object _, by decide, by decide⟩⟩

end Descriptor

end ByteLisp
