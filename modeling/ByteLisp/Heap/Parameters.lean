import ByteLisp.Heap.Chain
import ByteLisp.Parameters

/-!
# Parameter lists as values

The parameters of a function are written as a value: an integer is an argument
descriptor, a list of symbols is a parameter list such as
`(a b &optional c &rest d)`.
-/

namespace ByteLisp

namespace ParameterList

/-- The part of a parameter list that the next name belongs to. -/
inductive Part where
  | required
  | optional
  | rest
  | done
deriving DecidableEq, Repr

/-- A parameter list with the given names, none of which may be a constant. -/
def ofNames (required optional : List Symbol) (rest : Option Symbol) :
    Except Fault ParameterList :=
  let list : ParameterList := ⟨required, optional, rest⟩
  match list.names.find? Symbol.isConstant with
  | some name => .error (.settingConstant name)
  | none => .ok list

/-- The names of a parameter list that can be made are no constants. -/
theorem isConstant_of_ofNames {required optional : List Symbol}
    {rest : Option Symbol} {list : ParameterList}
    (made : ofNames required optional rest = .ok list) :
    ∀ name ∈ list.names, name.isConstant = false := by
  unfold ofNames at made
  dsimp only at made
  split at made
  · cases made
  · rename_i plain
    cases made
    intro name isIn
    simpa using List.find?_eq_none.mp plain name isIn

/-- The list with its names in the other order. -/
def reverse (list : ParameterList) : ParameterList where
  required := list.required.reverse
  optional := list.optional.reverse
  rest := list.rest

/-- Takes in the next element of a written parameter list, of which the names so
far are collected the latest first; `malformed` is the fault of a list that is
not well formed. -/
def accept (malformed : Fault) (state : Part × ParameterList) (item : Value) :
    Except Fault (Part × ParameterList) :=
  let (part, list) := state
  match item.symbol? with
  | none => .error malformed
  | some name =>
    if name = optionalMarker then
      match part with
      | .required => .ok (.optional, list)
      | _ => .error malformed
    else if name = restMarker then
      match part with
      | .required | .optional => .ok (.rest, list)
      | _ => .error malformed
    else if part = .done then .error malformed
    else if name.isConstant then .error (.settingConstant name)
    else
      match part with
      | .required => .ok (.required, { list with required := name :: list.required })
      | .optional => .ok (.optional, { list with optional := name :: list.optional })
      | _ => .ok (.done, { list with rest := some name })

/-- The parameter list that a value writes. -/
def ofValue (heap : Heap) (value : Value) : Except Fault ParameterList := do
  let malformed := Fault.malformedParameters value
  let items ← match heap.elements value with
    | .ok items => pure items
    | .error _ => throw malformed
  let (part, list) ← items.foldlM (accept malformed) (.required, {})
  if part = .rest then throw malformed else return list.reverse

end ParameterList

namespace Parameters

/-- The parameters that a value writes. -/
def ofValue (heap : Heap) (value : Value) : Except Fault Parameters :=
  match value with
  | .int raw =>
    match Descriptor.decode raw with
    | .ok descriptor => .ok (.lexical descriptor)
    | .error error => .error (.code error)
  | _ =>
    if value.isList then (ParameterList.ofValue heap value).map .dynamic
    else .error (.malformedParameters value)

/-- The value that writes the parameters. -/
def toValue (parameters : Parameters) (heap : Heap) : Value × Heap :=
  match parameters with
  | .dynamic list => heap.list (list.toSymbols.map Value.ofSymbol)
  | .lexical descriptor => (.int descriptor.encode, heap)

end Parameters

end ByteLisp
