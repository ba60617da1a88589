import ByteLisp.Primitive.Call
import ByteLisp.Proofs.NewObjects
import ByteLisp.Proofs.WellFormedCells

/-!
# Property lists as ordered maps

A property is found under every key that is identical to its own: an object under itself, a number
under an equal one of its kind, `nil` under both of its forms. `properties_after_history` says
what the properties of a symbol are after any history of an environment: each has the value that it
was given last, and they stand in the order in which they were given first.
-/

namespace ByteLisp

namespace Value

/-- Identity is symmetric. -/
theorem isEq_comm (left right : Value) : left.isEq right = right.isEq left := by
  rw [Bool.eq_iff_iff, isEq_iff, isEq_iff, eq_comm, and_comm]

/-- Identical values are identical to the same values. -/
theorem isEq_congr {left right : Value} (same : left.isEq right = true) (other : Value) :
    left.isEq other = right.isEq other := by
  obtain rfl | ⟨leftNil, rightNil⟩ := (isEq_iff left right).mp same
  · rfl
  · rw [Bool.eq_iff_iff, isEq_iff, isEq_iff]
    constructor
    · rintro (rfl | ⟨-, otherNil⟩)
      · exact .inr ⟨rightNil, leftNil⟩
      · exact .inr ⟨rightNil, otherNil⟩
    · rintro (rfl | ⟨-, otherNil⟩)
      · exact .inr ⟨leftNil, rightNil⟩
      · exact .inr ⟨leftNil, otherNil⟩

/-- Of values that are identical to one another, only the first is kept. -/
def firstOfEach : List Value → List Value
  | [] => []
  | value :: values => value :: (firstOfEach values).filter fun other => !value.isEq other

/-- A value is added at the end when no identical one is there. -/
theorem firstOfEach_concat (values : List Value) (last : Value) :
    firstOfEach (values ++ [last]) =
      if values.any (·.isEq last) then firstOfEach values else firstOfEach values ++ [last] := by
  induction values with
  | nil => rfl
  | cons value values ih =>
      rw [List.cons_append, firstOfEach, ih, firstOfEach, List.any_cons]
      by_cases known : values.any (·.isEq last) = true
      · rw [known, Bool.or_true, if_pos rfl, if_pos rfl]
      · rw [eq_false_of_ne_true known, Bool.or_false, if_neg Bool.false_ne_true,
          List.filter_append, List.filter_singleton]
        cases value.isEq last <;> simp

/-- The first of each kind are of the same kinds as all the values. -/
theorem any_firstOfEach (values : List Value) (key : Value) :
    (firstOfEach values).any (·.isEq key) = values.any (·.isEq key) := by
  induction values with
  | nil => rfl
  | cons value values ih =>
      rw [firstOfEach, List.any_cons, List.any_cons, List.any_filter, ← ih]
      cases different : value.isEq key with
      | true => rfl
      | false =>
          -- What is left out is identical to the first value, so it is not the key either.
          congr 2
          funext other
          cases same : other.isEq key with
          | false => rw [Bool.and_false]
          | true =>
              rw [isEq_comm, isEq_congr same, isEq_comm, different, Bool.not_false, Bool.and_true]

end Value

namespace PropertyList

/-- A property that is there keeps its place and its key and gets the new value. Another one comes
at the end. -/
theorem toList_put (properties : PropertyList) (key value : Value) :
    ((∀ property ∈ properties.toList, property.1.isEq key = false) ∧
      (properties.put key value).toList = properties.toList ++ [(key, value)]) ∨
    ∃ before known old behind, properties.toList = before ++ (known, old) :: behind ∧
      (∀ property ∈ before, property.1.isEq key = false) ∧ known.isEq key = true ∧
      (properties.put key value).toList = before ++ (known, value) :: behind := by
  unfold put
  split
  · rename_i place found
    obtain ⟨inside, same, first⟩ := Array.findIdx?_eq_some_iff_getElem.mp found
    refine .inr ⟨properties.toList.take place, properties[place].1, properties[place].2,
      properties.toList.drop (place + 1), ?_, ?_, same, ?_⟩
    · rw [← Array.getElem_toList inside, List.getElem_cons_drop, List.take_append_drop]
    · intro property member
      obtain ⟨index, early, rfl⟩ := List.mem_take_iff_getElem.mp member
      simpa using first index (by omega)
    · rw [Array.toList_modify, List.modify_eq_take_cons_drop (by simpa using inside)]
      rfl
  · rename_i absent
    refine .inl ⟨fun property member => ?_, Array.toList_push⟩
    simpa using Array.findIdx?_eq_none_iff.mp absent property (Array.mem_toList_iff.mp member)

/-- A property is found under the first identical key. -/
theorem get?_eq (properties : PropertyList) (key : Value) :
    properties.get? key = (properties.toList.find? (·.1.isEq key)).map (·.2) := by
  rw [get?, Array.find?_toList]

/-- A key that is absent is absent under every identical key. -/
theorem find?_eq_none_of_identical {properties : List (Value × Value)} {key other : Value}
    (absent : ∀ property ∈ properties, property.1.isEq key = false)
    (identical : key.isEq other = true) : properties.find? (·.1.isEq other) = none := by
  rw [List.find?_eq_none]
  intro property member
  rw [Value.isEq_comm, ← Value.isEq_congr identical, Value.isEq_comm, absent property member]
  exact Bool.false_ne_true

/-- Only the answer for the key that is put changes. -/
theorem get?_put (properties : PropertyList) (key value other : Value) :
    (properties.put key value).get? other =
      if key.isEq other then some value else properties.get? other := by
  rw [get?_eq, get?_eq]
  obtain ⟨absent, added⟩ | ⟨before, known, old, behind, holds, early, same, changed⟩ :=
    toList_put properties key value
  · rw [added, List.find?_append]
    split
    · rename_i identical
      simp [find?_eq_none_of_identical absent identical, identical]
    · rename_i different
      simp [different]
  · rw [changed, holds, List.find?_append, List.find?_append]
    split
    · rename_i identical
      simp [find?_eq_none_of_identical early identical, Value.isEq_congr same, identical]
    · rename_i different
      simp [Value.isEq_congr same, different]

/-- Under its own key every property is found. -/
theorem Distinct.get?_of_mem {properties : PropertyList} (distinct : properties.Distinct)
    {key value : Value} (member : (key, value) ∈ properties.toList) :
    properties.get? key = some value := by
  obtain ⟨before, behind, holds⟩ := List.append_of_mem member
  have early : ∀ property ∈ before, property.1.isEq key = false := by
    rw [Distinct, keys, holds, List.map_append, List.map_cons] at distinct
    intro property isEarly
    exact (List.pairwise_append.mp distinct).2.2 _ (List.mem_map_of_mem isEarly) _
      List.mem_cons_self
  have none : before.find? (·.1.isEq key) = none := by simpa using early
  rw [get?_eq, holds, List.find?_append, none]
  simp

/-- Keys and values in turn, with the values by key. -/
theorem Distinct.flat_eq {properties : PropertyList} (distinct : properties.Distinct) :
    properties.flat =
      properties.keys.flatMap fun key => [key, (properties.get? key).getD .nil] := by
  rw [flat, keys, List.flatMap_map]
  apply List.flatMap_congr
  rintro ⟨key, value⟩ member
  rw [distinct.get?_of_mem member]
  rfl

/-! ## Many properties, one after the other -/

/-- The properties after these have been put. -/
def putAll (properties : PropertyList) (puts : List (Value × Value)) : PropertyList :=
  puts.foldl (fun properties property => properties.put property.1 property.2) properties

/-- The last put is made on what the others have left. -/
theorem putAll_concat (properties : PropertyList) (puts : List (Value × Value))
    (key value : Value) :
    properties.putAll (puts ++ [(key, value)]) = (properties.putAll puts).put key value := by
  simp [putAll]

/-- After a history of puts, a key has the value of the last put under an identical key, or else
what it had before. -/
theorem get?_putAll (properties : PropertyList) (puts : List (Value × Value)) (key : Value) :
    (properties.putAll puts).get? key =
      ((puts.reverse.find? (·.1.isEq key)).map (·.2)).or (properties.get? key) := by
  induction puts using List.reverseRecOn with
  | nil => rfl
  | append_singleton puts property ih =>
      rw [putAll_concat, get?_put, ih, List.reverse_concat, List.find?_cons]
      cases property.1.isEq key <;> rfl

/-- The keys of a history of puts are in the order in which they were first put. -/
theorem keys_putAll_empty (puts : List (Value × Value)) :
    (putAll #[] puts).keys = Value.firstOfEach (puts.map (·.1)) := by
  induction puts using List.reverseRecOn with
  | nil => rfl
  | append_singleton puts property ih =>
      rw [putAll_concat, keys_put, ih, List.map_append, List.map_singleton,
        Value.firstOfEach_concat, Value.any_firstOfEach]

end PropertyList

namespace Environment

/-! ## Histories -/

/-- The property that the operation gives the symbol. -/
def Operation.property? (symbol : Symbol) : Operation → Option (Value × Value)
  | .put name key value => if name = symbol then some (key, value) else none
  | _ => none

/-- The properties that a history gives the symbol, in order. -/
def puts (symbol : Symbol) (history : List Operation) : List (Value × Value) :=
  history.filterMap (·.property? symbol)

/-- Storing a value changes no property. -/
theorem propertyList_store (env : Environment) (name : Symbol) (content : Option Value) :
    (env.store name content).propertyList = env.propertyList := by
  cases content <;> rfl

/-- Undoing bindings changes no property. -/
theorem propertyList_undoMany (env : Environment) (count : Nat) :
    (env.undoMany count).propertyList = env.propertyList := by
  induction count generalizing env with
  | zero => rfl
  | succ count ih =>
      rw [undoMany, ih]
      unfold undo
      split
      · exact propertyList_store env _ _
      · rfl

/-- A put changes the properties of its own symbol. -/
theorem propertyList_put (env : Environment) (name symbol : Symbol) (key value : Value) :
    (put name key value env).2.propertyList symbol =
      if name = symbol then (env.propertyList symbol).put key value
      else env.propertyList symbol := by
  simp only [put, propertyList, Std.ExtTreeMap.getElem?_alter]
  by_cases same : name = symbol
  · subst same
    simp
  · have different : ¬ compare name.name symbol.name = .eq := by
      intro equal
      exact same (congrArg Symbol.mk (Std.LawfulEqCmp.compare_eq_iff_eq.mp equal))
    simp only [same, different, if_false]

/-- An operation that does not put a property leaves all properties as they are. -/
theorem propertyList_perform (env : Environment) (operation : Operation) (symbol : Symbol) :
    (operation.perform env).2.propertyList symbol =
      (env.propertyList symbol).putAll (operation.property? symbol).toList := by
  have assigned : ∀ {name content}, operation.assignment? = some (name, content) →
      (operation.perform env).2.propertyList symbol = env.propertyList symbol := by
    intro name content assigns
    obtain made | ⟨fault, failed⟩ := Operation.perform_assignment assigns env
    · rw [made]
      exact congrFun (propertyList_store env name content) symbol
    · rw [failed]
  cases operation with
  | set | setBound | makeUnbound => exact assigned rfl
  | put name key value =>
      rw [Operation.perform, propertyList_put, Operation.property?]
      split <;> rfl
  | bind name value =>
      rw [Operation.perform, bind_eq]
      split
      · rfl
      · exact congrFun (propertyList_store env name _) symbol
  | unbind count =>
      simp only [Operation.perform, unbind]
      split
      · exact congrFun (propertyList_undoMany env count) symbol
      · rfl
  | unbindTo depth => exact congrFun (propertyList_undoMany env _) symbol
  | fset name definition =>
      simp only [Operation.perform, fset]
      split
      · rfl
      · split <;> rfl

/-- A history changes the properties of a symbol by its puts alone. -/
theorem propertyList_performAll (env : Environment) (history : List Operation) (symbol : Symbol) :
    (env.performAll history).propertyList symbol =
      (env.propertyList symbol).putAll (puts symbol history) := by
  induction history generalizing env with
  | nil => rfl
  | cons operation history ih =>
      rw [performAll, List.foldl_cons, ← performAll, ih, propertyList_perform, puts, puts,
        List.filterMap_cons]
      cases operation.property? symbol <;> rfl

/-- For all histories of an environment that starts with the built-in functions only, and all
symbols:
- A property is what was put last under an identical key, or `nil` when there is no such.
- Whatever happens later, it stays as it is until the symbol is given a property under an identical
  key.
- The property list is a new list. It has each key once, in the order in which the keys were put
  first, and behind each key the property. -/
theorem properties_after_history (history : List Operation) (symbol : Symbol) :
    let env := withPrimitives.performAll history
    (∀ key, env.get symbol key =
      (((puts symbol history).reverse.find? (·.1.isEq key)).map (·.2)).getD .nil) ∧
    (∀ key later, (∀ put ∈ puts symbol later, put.1.isEq key = false) →
      (env.performAll later).get symbol key = env.get symbol key) ∧
    ∀ name heap, name.symbol? = some symbol → ∃ list after,
      Cells.propertyList name ⟨heap, env⟩ = (.ok list, ⟨after, env⟩) ∧ heap.Extends after ∧
      after.elements list = .ok ((Value.firstOfEach ((puts symbol history).map (·.1))).flatMap
        fun key => [key, env.get symbol key]).toArray := by
  intro env
  have properties : env.propertyList symbol = .putAll #[] (puts symbol history) :=
    propertyList_performAll withPrimitives history symbol
  refine ⟨fun key => ?_, fun key later other => ?_, fun name heap isName => ?_⟩
  · rw [get, properties, PropertyList.get?_putAll, PropertyList.get?_eq]
    simp
  · have none : (puts symbol later).reverse.find? (·.1.isEq key) = none := by simpa using other
    rw [get, get, propertyList_performAll, PropertyList.get?_putAll, none]
    rfl
  · have distinct : (env.propertyList symbol).Distinct :=
      (WellFormed.withPrimitives.performAll history).properties symbol
    have made : Cells.propertyList name ⟨heap, env⟩ =
        (.ok (heap.list (env.propertyList symbol).flat).1,
          ⟨(heap.list (env.propertyList symbol).flat).2, env⟩) := by
      simp only [Cells.propertyList, Value.expectSymbol, isName]
      rfl
    refine ⟨_, _, made, Heap.extends_listWithTail _ _ _, ?_⟩
    rw [Heap.elements_list (.refl _), distinct.flat_eq, properties,
      PropertyList.keys_putAll_empty, ← properties]
    rfl

/-- Properties of two symbols, under strings that are two objects, under the two zeros, and under
the two forms of `nil`. -/
def mixedPuts : List Operation :=
  [.put .nil (.string 0) (.int 1), .put .t (.string 0) (.int 2), .put .nil .nil (.int 3),
   .bind .nil (.int 0), .put .nil (.float ⟨0⟩) (.int 4), .put .nil (.string 1) (.int 5),
   .put .nil (.symbol .nil) (.int 6), .put .nil (.float ⟨0x8000000000000000⟩) (.int 7)]

/-- Only the forms of `nil` are one key. Its property has changed in place, and remains when
properties are given to another symbol and under another string. -/
theorem properties_after_mixedPuts :
    let env := withPrimitives.performAll mixedPuts
    (∃ list after, Cells.propertyList .nil ⟨{}, env⟩ = (.ok list, ⟨after, env⟩) ∧
      after.elements list = .ok #[.string 0, .int 1, .nil, .int 6, .float ⟨0⟩, .int 4,
        .string 1, .int 5, .float ⟨0x8000000000000000⟩, .int 7]) ∧
    (env.performAll [.put .t .nil (.int 8), .put .nil (.string 2) (.int 9)]).get .nil
      (.symbol .nil) = .int 6 := by
  intro env
  obtain ⟨last, stays, listed⟩ := properties_after_history mixedPuts .nil
  obtain ⟨list, after, made, -, elements⟩ := listed .nil {} rfl
  refine ⟨⟨list, after, made, ?_⟩, ?_⟩
  · rw [elements]
    simp only [last]
    rfl
  · rw [stays _ _ (by decide), last]
    rfl

end Environment

end ByteLisp
