import ByteLisp.Proofs.ListParts
import ByteLisp.Proofs.WrittenParameters

/-!
# Parameter lists and the values that write them

`ParameterList.ofValue_by_grammar` says which values are parameter lists, what is read from them,
what becomes of them when they are written again, and why all other values are refused.

A parameter list can also be made of names directly. There only the constants are refused, but a
marker is accepted as a name. Written down, it is taken for the marker that it is.
`ParameterList.list_form_of_names` says when such a list comes back, and
`ParameterList.marker_names_lost` has two cases in which it does not.
-/

namespace ByteLisp

/-- The value is a list of the items: a chain of cells with these first fields, which ends in
`nil`. -/
def Heap.ProperList (heap : Heap) (value : Value) (items : List Value) : Prop :=
  ∃ cells following, heap.Ended value cells following ∧ following.isNil = true ∧
    cells.map (fun cell => (heap.pair cell).car) = items

/-- A proper list is one whose elements are found. -/
theorem Heap.properList_iff {heap : Heap} {value : Value} {items : List Value} :
    heap.ProperList value items ↔ heap.elements value = .ok items.toArray := by
  rw [elements_eq_ok_iff]
  constructor
  · rintro ⟨cells, following, ended, isNil, rfl⟩
    exact ⟨cells, following, ended, isNil, rfl⟩
  · rintro ⟨cells, following, ended, isNil, same⟩
    exact ⟨cells, following, ended, isNil, (List.toArray_inj same).symm⟩

namespace ParameterList

/-- The value that a parameter list is written as has its names and markers as elements. -/
theorem elements_of_toValue {list : ParameterList} {heap after : Heap} {written : Value}
    (made : (Parameters.dynamic list).toValue heap = (written, after)) :
    after.elements written = .ok (list.toSymbols.map Value.ofSymbol).toArray := by
  have elements := Heap.elements_list (.refl (heap.list (list.toSymbols.map Value.ofSymbol)).2)
  have isMade : heap.list (list.toSymbols.map Value.ofSymbol) = (written, after) := made
  rwa [isMade] at elements

/-- For all heaps and values:
- The value is read as a parameter list exactly when it is a list of symbols that is made of
  sections: names, then maybe the optional marker with names behind it, then maybe the rest marker
  with one name behind it. No name is a marker or a constant. What is read has the names of the
  sections.
- What is read and written again is read as the same. It has the elements of the value, but an
  empty optional section is left out.
- The value is refused for setting a constant exactly when it is a list whose first element that
  does not fit is a constant where a name belongs.
- Everything else that is refused is refused as malformed. -/
theorem ofValue_by_grammar (heap : Heap) (value : Value) :
    (∀ list, ofValue heap value = .ok list ↔
      ∃ sections : Sections, heap.ProperList value (sections.symbols.map .symbol) ∧
        sections.parameters = list) ∧
    (∀ sections : Sections, heap.ProperList value (sections.symbols.map .symbol) →
      ∀ target written after,
        (Parameters.dynamic sections.parameters).toValue target = (written, after) →
        ofValue after written = ofValue heap value ∧
        after.ProperList written
          ((if sections.optional = some [] then sections.symbols.erase optionalMarker
            else sections.symbols).map .symbol)) ∧
    (∀ name, ofValue heap value = .error (.settingConstant name) ↔
      ∃ front item behind, heap.ProperList value (front.map .symbol ++ item :: behind) ∧
        NameFollows front ∧ item.symbol? = some name ∧ name.isConstant = true) ∧
    ∀ fault, ofValue heap value = .error fault →
      fault = .malformedParameters value ∨ ∃ name, fault = .settingConstant name := by
  simp only [Heap.properList_iff]
  refine ⟨fun list => ofValue_eq_ok_iff, ?_, fun name => ofValue_eq_settingConstant_iff,
    fun fault => ofValue_eq_error⟩
  intro sections proper target written after made
  have elements := elements_of_toValue made
  have bindable : ∀ name ∈ sections.parameters.names, name.isConstant = false :=
    fun name isIn => (sections.plain name isIn).bindable
  refine ⟨?_, ?_⟩
  · rw [ofValue_eq_ok_iff.mpr ⟨sections, proper, rfl⟩]
    exact ofValue_of_elements elements sections.plain
  · rw [elements, map_ofSymbol_toSymbols bindable, Sections.toSymbols_parameters]

/-- The sections of `(a &optional &rest b)`. -/
def emptyOptional : Sections where
  required := [⟨"a"⟩]
  optional := some []
  rest := some ⟨"b"⟩
  plain := by
    have first : Plain ⟨"a"⟩ := ⟨by decide, by decide, by decide⟩
    have second : Plain ⟨"b"⟩ := ⟨by decide, by decide, by decide⟩
    simp [first, second]

/-- An empty optional section is read, and is left out when the list is written again. -/
theorem emptyOptional_read_and_written :
    ∃ heap value, ofValue heap value = .ok ⟨[⟨"a"⟩], [], some ⟨"b"⟩⟩ ∧
      heap.ProperList value
        [.symbol ⟨"a"⟩, .symbol optionalMarker, .symbol restMarker, .symbol ⟨"b"⟩] ∧
      ∃ written after,
        (Parameters.dynamic ⟨[⟨"a"⟩], [], some ⟨"b"⟩⟩).toValue heap = (written, after) ∧
        after.ProperList written [.symbol ⟨"a"⟩, .symbol restMarker, .symbol ⟨"b"⟩] := by
  let made := ({} : Heap).list (emptyOptional.symbols.map .symbol)
  have proper : made.2.ProperList made.1 (emptyOptional.symbols.map .symbol) :=
    Heap.properList_iff.mpr (Heap.elements_list (.refl _))
  obtain ⟨accepted, written, -, -⟩ := ofValue_by_grammar made.2 made.1
  refine ⟨made.2, made.1, (accepted _).mpr ⟨emptyOptional, proper, rfl⟩, proper, _, _, rfl, ?_⟩
  exact (written emptyOptional proper made.2 _ _ rfl).2

/-! ## Lists that are made of names -/

/-- For all names of which a parameter list can be made:
- The list form of the parameter list is read as this list exactly when no name is a marker.
- Otherwise the list form is malformed, or it is read as another parameter list. -/
theorem list_form_of_names (required optional : List Symbol) (rest : Option Symbol)
    (list : ParameterList) (made : ofNames required optional rest = .ok list)
    (heap after : Heap) (written : Value)
    (writes : (Parameters.dynamic list).toValue heap = (written, after)) :
    (ofValue after written = .ok list ↔
      ∀ name ∈ list.names, name ≠ optionalMarker ∧ name ≠ restMarker) ∧
    ((∃ name ∈ list.names, name = optionalMarker ∨ name = restMarker) →
      ofValue after written = .error (.malformedParameters written) ∨
        ∃ other, other ≠ list ∧ ofValue after written = .ok other) := by
  have bindable := isConstant_of_ofNames made
  have elements := elements_of_toValue writes
  have comesBack : ofValue after written = .ok list ↔
      ∀ name ∈ list.names, name ≠ optionalMarker ∧ name ≠ restMarker := by
    constructor
    · intro read name isIn
      have plain := plain_ofValue read name isIn
      exact ⟨plain.notOptional, plain.notRest⟩
    · intro unmarked
      exact ofValue_of_elements elements fun name isIn =>
        ⟨(unmarked name isIn).1, (unmarked name isIn).2, bindable name isIn⟩
  refine ⟨comesBack, ?_⟩
  rintro ⟨name, isIn, isMarker⟩
  cases outcome : ofValue after written with
  | ok other =>
      refine .inr ⟨other, ?_, rfl⟩
      rintro rfl
      have unmarked := comesBack.mp outcome name isIn
      exact isMarker.elim unmarked.1 unmarked.2
  | error fault =>
      rw [map_ofSymbol_toSymbols bindable] at elements
      rw [ofValue_eq_error_of_bindable elements (bindable_of_mem_toSymbols bindable) outcome]
      exact .inl rfl

/-- A list with a name of each kind comes back. -/
theorem list_form_of_three_names :
    ∃ list written after, ofNames [⟨"a"⟩] [⟨"b"⟩] (some ⟨"c"⟩) = .ok list ∧
      (Parameters.dynamic list).toValue {} = (written, after) ∧
      ofValue after written = .ok list := by
  refine ⟨⟨[⟨"a"⟩], [⟨"b"⟩], some ⟨"c"⟩⟩, _, _, rfl, rfl, ?_⟩
  refine (list_form_of_names [⟨"a"⟩] [⟨"b"⟩] (some ⟨"c"⟩) _ rfl {} _ _ rfl).1.mpr ?_
  decide

/-- A list whose only name is the rest marker can be made, and its list form is malformed. A list
of three names, the second of them the optional marker, comes back as a list of one required and
one optional name. -/
theorem marker_names_lost :
    (∃ list written after, ofNames [restMarker] [] none = .ok list ∧
      (Parameters.dynamic list).toValue {} = (written, after) ∧
      ofValue after written = .error (.malformedParameters written)) ∧
    ∃ list written after, ofNames [⟨"a"⟩, optionalMarker, ⟨"b"⟩] [] none = .ok list ∧
      (Parameters.dynamic list).toValue {} = (written, after) ∧
      ofValue after written = .ok ⟨[⟨"a"⟩], [⟨"b"⟩], none⟩ ∧
      list ≠ ⟨[⟨"a"⟩], [⟨"b"⟩], none⟩ := by
  refine ⟨⟨⟨[restMarker], [], none⟩, _, _, rfl, rfl, rfl⟩,
    ⟨⟨[⟨"a"⟩, optionalMarker, ⟨"b"⟩], [], none⟩, _, _, rfl, rfl, rfl, ?_⟩⟩
  decide

end ParameterList

end ByteLisp
