import ByteLisp.Code.Descriptor
import ByteLisp.Value.Symbol

/-!
# Parameters of a function

A function takes its arguments in one of two ways. Under the dynamic
convention it has a list of parameter names, and a call binds each of them.
Under the lexical convention an argument descriptor says how many arguments
there are, and a call leaves them on the operand stack.
-/

namespace ByteLisp

/-- The ways to pass arguments. -/
inductive Convention where
  /-- Parameters are bound by name. -/
  | dynamic
  /-- Parameters are slots of the operand stack. -/
  | lexical
deriving DecidableEq, Repr

/-- The name of the convention. -/
def Convention.text : Convention → String
  | dynamic => "dynamic"
  | lexical => "lexical"

/-- Parameter names: the required ones, the optional ones, and the name that
receives all further arguments. -/
structure ParameterList where
  required : List Symbol := []
  optional : List Symbol := []
  rest : Option Symbol := none
deriving DecidableEq, Repr

namespace ParameterList

/-- The word that precedes the optional names. -/
def optionalMarker : Symbol := ⟨"&optional"⟩

/-- The word that precedes the name for all further arguments. -/
def restMarker : Symbol := ⟨"&rest"⟩

/-- All names in the order in which they are bound. -/
def names (list : ParameterList) : List Symbol :=
  list.required ++ list.optional ++ list.rest.toList

/-- The accepted numbers of arguments. -/
def arity (list : ParameterList) : Arity where
  least := list.required.length
  most := match list.rest with
    | some _ => none
    | none => some (list.required.length + list.optional.length)

/-- The number of bindings that a call makes. -/
def bindingCount (list : ParameterList) : Nat :=
  list.required.length + list.optional.length + if list.rest.isSome then 1 else 0

/-- The names with their markers, as they are written in a parameter list. -/
def toSymbols (list : ParameterList) : List Symbol :=
  list.required ++
    (if list.optional.isEmpty then [] else optionalMarker :: list.optional) ++
    match list.rest with
    | some name => [restMarker, name]
    | none => []

/-- There are as many names as bindings. -/
@[simp] theorem length_names (list : ParameterList) : list.names.length = list.bindingCount := by
  cases list with
  | mk required optional rest => cases rest <;> simp [names, bindingCount, Nat.add_assoc]

end ParameterList

/-- How a function takes its arguments. -/
inductive Parameters where
  | dynamic (list : ParameterList)
  | lexical (descriptor : Descriptor)
deriving DecidableEq, Repr

namespace Parameters

/-- The convention by which the arguments are passed. -/
def convention : Parameters → Convention
  | dynamic _ => .dynamic
  | lexical _ => .lexical

/-- The accepted numbers of arguments. -/
def arity : Parameters → Arity
  | dynamic list => list.arity
  | lexical descriptor => descriptor.arity

end Parameters

end ByteLisp
