import ByteLisp.Datum.Conversion
import ByteLisp.Proofs.DataFaults
import ByteLisp.Proofs.NewObjects
import ByteLisp.Proofs.ParameterGrammar

/-!
# Parameters as they are written

The parameters of a function are read from a value and can be written as one again. What
has been read has a plain form: a descriptor whose fields fit, or names that are neither
markers nor constants. Writing such parameters and reading them again gives them back.
-/

namespace ByteLisp

namespace Descriptor

/-- Only valid descriptors are decoded. -/
theorem valid_decode {raw : Int64} {descriptor : Descriptor}
    (decoded : decode raw = .ok descriptor) : descriptor.Valid := by
  unfold decode at decoded
  dsimp only at decoded
  split at decoded
  · rename_i fits
    cases decoded
    exact fits.2.2
  · cases decoded

/-- The three fields of the integer form do not overlap. -/
theorem decode_encode {descriptor : Descriptor} (valid : descriptor.Valid) :
    decode descriptor.encode = .ok descriptor := by
  obtain ⟨required, total, rest⟩ := descriptor
  have small : required.toNat ≤ 127 := valid.1
  have total_lt : total.toNat < 65536 := total.toNat_lt
  obtain ⟨flag, flag_le, isSet⟩ : ∃ flag, flag ≤ 1 ∧
      (if rest then 128 else 0) = 128 * flag ∧ decide (flag = 1) = rest := by
    cases rest
    · exact ⟨0, by simp⟩
    · exact ⟨1, by simp⟩
  have bits : (encode ⟨required, total, rest⟩).toInt =
      (required.toNat + 128 * flag + 256 * total.toNat : Nat) := by
    simp only [encode, isSet.1, Nat.mod_eq_of_lt (by omega : required.toNat < 128)]
    exact Int64.toInt_ofNat_of_lt (by omega)
  have low : (required.toNat + 128 * flag + 256 * total.toNat) % 128 = required.toNat := by omega
  have middle : (required.toNat + 128 * flag + 256 * total.toNat) / 128 % 2 = flag := by omega
  have high : (required.toNat + 128 * flag + 256 * total.toNat) / 256 = total.toNat := by omega
  simp only [decode, bits, Int.toNat_natCast, low, middle, high, UInt8.ofNat_toNat,
    UInt16.ofNat_toNat, isSet.2]
  rw [if_pos ⟨Int.natCast_nonneg _, total_lt, valid⟩]

end Descriptor

namespace ParameterList

variable {heap : Heap} {value : Value} {list : ParameterList}

/-- Names that are read are no markers and no constants. -/
theorem plain_ofValue (read : ofValue heap value = .ok list) :
    ∀ name ∈ list.names, Plain name := by
  obtain ⟨sections, -, rfl⟩ := ofValue_eq_ok_iff.mp read
  exact sections.plain

/-- A list whose elements are the written form of a parameter list reads as that list. -/
theorem ofValue_of_elements
    (elements : heap.elements value = .ok (list.toSymbols.map Value.ofSymbol).toArray)
    (plain : ∀ name ∈ list.names, Plain name) : ofValue heap value = .ok list := by
  refine ofValue_eq_ok_iff.mpr ⟨.ofList list plain, ?_, Sections.parameters_ofList plain⟩
  rw [elements, Sections.symbols_ofList,
    map_ofSymbol_toSymbols fun name isIn => (plain name isIn).bindable]

end ParameterList

namespace Parameters

/-- The parameters are read from some value. Those of every function are, since a function
is made from a value that writes its parameters. -/
def Written (parameters : Parameters) : Prop :=
  ∃ heap value, ofValue heap value = .ok parameters

/-- A list is read as names. -/
theorem ofValue_of_isList {heap : Heap} {value : Value} (isList : value.isList = true) :
    ofValue heap value = (ParameterList.ofValue heap value).map .dynamic := by
  unfold ofValue
  split
  · cases isList
  · rw [if_pos isList]

/-- A descriptor that was read is valid. -/
theorem Written.valid {descriptor : Descriptor} (written : (lexical descriptor).Written) :
    descriptor.Valid := by
  obtain ⟨heap, value, read⟩ := written
  unfold ofValue at read
  split at read
  · split at read <;> cases read
    exact Descriptor.valid_decode ‹_›
  · split at read
    · cases list : ParameterList.ofValue heap value <;> rw [list] at read <;> cases read
    · cases read

/-- Names that were read are plain. -/
theorem Written.plain {list : ParameterList} (written : (dynamic list).Written) :
    ∀ name ∈ list.names, ParameterList.Plain name := by
  obtain ⟨heap, value, read⟩ := written
  unfold ofValue at read
  split at read
  · split at read <;> cases read
  · split at read
    · cases names : ParameterList.ofValue heap value <;> rw [names] at read <;> cases read
      exact ParameterList.plain_ofValue names
    · cases read

end Parameters

/-! ## Parameters of a function that is written down -/

namespace Datum

/-- A symbol is made without an object. -/
theorem toValue_ofSymbol (symbol : Symbol) (heap : Heap) :
    (ofSymbol symbol).toValue heap = (.ok (Value.ofSymbol symbol), heap) := by
  unfold ofSymbol
  split
  · rename_i isNil
    rw [toValue, Value.ofSymbol, if_pos isNil]
    rfl
  · rw [toValue]
    rfl

/-- So are symbols in a row. -/
theorem itemsToValues_ofSymbol (symbols : List Symbol) (heap : Heap) :
    itemsToValues (symbols.map ofSymbol) heap = (.ok (symbols.map Value.ofSymbol), heap) := by
  induction symbols with
  | nil =>
      rw [List.map_nil, itemsToValues]
      rfl
  | cons symbol symbols ih =>
      rw [List.map_cons, itemsToValues, run_bind, toValue_ofSymbol]
      dsimp only
      rw [run_bind, ih]
      rfl

/-- The empty list is made like every other. -/
theorem toValue_ofItems {items : List Datum} {values : List Value} {heap after : Heap}
    (made : itemsToValues items heap = (.ok values, after)) :
    (ofItems items).toValue heap = (.ok (after.list values).1, (after.list values).2) := by
  cases items with
  | nil =>
      rw [itemsToValues] at made
      cases made
      rw [ofItems, toValue]
      rfl
  | cons item items =>
      rw [ofItems, toValue, run_bind, made]
      · rfl
      · simp

/-- Written parameters come back from their datum, also after more objects have been made. -/
theorem ofValue_of_ofParameters {parameters : Parameters} (written : parameters.Written)
    (target : Heap) :
    ∃ value after, (ofParameters parameters).toValue target = (.ok value, after) ∧
      target.Extends after ∧
      ∀ later, after.Extends later → Parameters.ofValue later value = .ok parameters := by
  cases parameters with
  | lexical descriptor =>
      refine ⟨.int descriptor.encode, target, ?_, .refl target, fun later _ => ?_⟩
      · rw [ofParameters, toValue]
        rfl
      · rw [Parameters.ofValue, Descriptor.decode_encode written.valid]
  | dynamic list =>
      have made := toValue_ofItems (itemsToValues_ofSymbol list.toSymbols target)
      refine ⟨_, _, made, Heap.extends_listWithTail _ _ _, fun later kept => ?_⟩
      have elements := Heap.elements_list kept
      rw [Parameters.ofValue_of_isList (Heap.isList_list _ _),
        ParameterList.ofValue_of_elements elements written.plain]
      rfl

end Datum

end ByteLisp
