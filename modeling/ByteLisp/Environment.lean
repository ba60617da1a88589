import ByteLisp.Fault
import Std.Data.ExtTreeMap

/-!
# The environment

Every symbol has three cells: a value, a function and a property list. A
dynamic binding gives a symbol a new value and remembers the content of its
value cell; undoing the binding puts that content back, also when the cell was
empty.
-/

namespace ByteLisp

/-- The content of a value cell before a binding. -/
structure Binding where
  symbol : Symbol
  previous : Option Value
deriving DecidableEq, Repr

/-- The properties of a symbol in the order in which they were added. -/
abbrev PropertyList := Array (Value × Value)

namespace PropertyList

/-- The value of the first property with an identical key. -/
def get? (properties : PropertyList) (key : Value) : Option Value :=
  (properties.find? (·.1.isEq key)).map (·.2)

/-- Replaces the value of a property, or adds the property at the end. -/
def put (properties : PropertyList) (key value : Value) : PropertyList :=
  match properties.findIdx? (·.1.isEq key) with
  | some place => properties.modify place fun (known, _) => (known, value)
  | none => properties.push (key, value)

/-- Keys and values in turn. -/
def flat (properties : PropertyList) : List Value :=
  properties.toList.flatMap fun (key, value) => [key, value]

end PropertyList

/-- The cells of all symbols by name, and the bindings in force, the innermost
last. -/
structure Environment where
  values : Std.ExtTreeMap String Value := ∅
  functions : Std.ExtTreeMap String Value := ∅
  properties : Std.ExtTreeMap String PropertyList := ∅
  bindings : Array Binding := #[]

/-- An operation that works on the environment. One that fails leaves the
environment as it was. -/
abbrev EnvM := ExceptT Fault (StateM Environment)

namespace Environment

/-- The environment in which every built-in function has its name and no other
cell is filled. -/
def withPrimitives : Environment where
  functions := Primitive.all.foldl (fun cells p => cells.insert p.name (.primitive p)) ∅

/-- The value of a symbol, when it has one. Constants are their own value. -/
def lookup (env : Environment) (symbol : Symbol) : Option Value :=
  if symbol.isConstant then some (Value.ofSymbol symbol) else env.values[symbol.name]?

/-- The value of a symbol. -/
def symbolValue (env : Environment) (symbol : Symbol) : Except Fault Value :=
  match env.lookup symbol with
  | some value => .ok value
  | none => .error (.voidVariable symbol)

/-- Whether a symbol has a value. -/
def isBound (env : Environment) (symbol : Symbol) : Bool :=
  (env.lookup symbol).isSome

/-- Fills or empties the value cell of a symbol. -/
def store (env : Environment) (symbol : Symbol) (content : Option Value) : Environment :=
  match env with
  | ⟨values, functions, properties, bindings⟩ =>
    match content with
    | some value => ⟨values.insert symbol.name value, functions, properties, bindings⟩
    | none => ⟨values.erase symbol.name, functions, properties, bindings⟩

/-- Gives a symbol a value. -/
def set (symbol : Symbol) (value : Value) : EnvM Unit :=
  fun env =>
    if symbol.isConstant then (.error (.settingConstant symbol), env)
    else (.ok (), env.store symbol (some value))

/-- Gives a new value to a symbol that already has one. -/
def setBound (symbol : Symbol) (value : Value) : EnvM Unit :=
  fun env =>
    if symbol.isConstant then (.error (.settingConstant symbol), env)
    else if env.values.contains symbol.name then (.ok (), env.store symbol (some value))
    else (.error (.voidVariable symbol), env)

/-- Takes the value of a symbol away. -/
def makeUnbound (symbol : Symbol) : EnvM Unit :=
  fun env =>
    if symbol.isConstant then (.error (.settingConstant symbol), env)
    else (.ok (), env.store symbol none)

/-- The number of bindings in force. -/
def bindingDepth (env : Environment) : Nat :=
  env.bindings.size

/-- Gives a symbol a new value and remembers the old content of its cell. -/
def bind (symbol : Symbol) (value : Value) : EnvM Unit :=
  fun env =>
    if symbol.isConstant then (.error (.settingConstant symbol), env)
    else
      let previous := env.values[symbol.name]?
      match env.store symbol (some value) with
      | ⟨values, functions, properties, bindings⟩ =>
        (.ok (), ⟨values, functions, properties, bindings.push ⟨symbol, previous⟩⟩)

/-- Undoes the innermost binding. -/
def undo (env : Environment) : Environment :=
  match env.bindings.back? with
  | some binding =>
    match env.store binding.symbol binding.previous with
    | ⟨values, functions, properties, bindings⟩ => ⟨values, functions, properties, bindings.pop⟩
  | none => env

/-- Undoes the innermost bindings, `count` of them. -/
def undoMany : Nat → Environment → Environment
  | 0, env => env
  | count + 1, env => undoMany count env.undo

/-- Undoes bindings until `depth` are left. The result holds how many were
undone. -/
def unbindTo (env : Environment) (depth : Nat) : Nat × Environment :=
  let count := env.bindingDepth - depth
  (count, env.undoMany count)

/-- Undoes the innermost bindings, which must be there. -/
def unbind (count : Nat) : EnvM Unit :=
  fun env =>
    if count ≤ env.bindingDepth then (.ok (), env.undoMany count)
    else (.error (.unbindUnderflow count env.bindingDepth), env)

/-- The function of a symbol; `nil` when it has none. -/
def symbolFunction (env : Environment) (symbol : Symbol) : Value :=
  env.functions[symbol.name]?.getD .nil

/-- Whether a symbol has a function. -/
def isFunctionBound (env : Environment) (symbol : Symbol) : Bool :=
  match env.functions[symbol.name]? with
  | some definition => !definition.isNil
  | none => false

/-- Gives a symbol a function; `nil` takes it away. The symbol `nil` itself
cannot have one. -/
def fset (symbol : Symbol) (definition : Value) : EnvM Unit :=
  fun ⟨values, functions, properties, bindings⟩ =>
    if definition.isNil then
      (.ok (), ⟨values, functions.erase symbol.name, properties, bindings⟩)
    else if symbol.isNil then
      (.error (.settingConstant symbol), ⟨values, functions, properties, bindings⟩)
    else
      (.ok (), ⟨values, functions.insert symbol.name definition, properties, bindings⟩)

/-- The longest chain of symbols that a call follows to a function. -/
def maxIndirection : Nat := 100

/-- Looks at `steps` values from `current` on, going from each symbol to the
content of its function cell, for the first one that is not a symbol. -/
def resolve (env : Environment) (callee : Value) : Nat → Value → Except Fault Value
  | 0, _ => .error (.invalidFunction callee)
  | steps + 1, current =>
    match current.symbol? with
    | none => .ok current
    | some symbol =>
      match env.functions[symbol.name]? with
      | some definition => resolve env callee steps definition
      | none => .error (.voidFunction symbol)

/-- The value that a call of `callee` calls: symbols stand for their functions. -/
def indirectFunction (env : Environment) (callee : Value) : Except Fault Value :=
  env.resolve callee maxIndirection callee

/-- The properties of a symbol. -/
def propertyList (env : Environment) (symbol : Symbol) : PropertyList :=
  env.properties[symbol.name]?.getD #[]

/-- A property of a symbol; `nil` when it does not have it. -/
def get (env : Environment) (symbol : Symbol) (key : Value) : Value :=
  ((env.propertyList symbol).get? key).getD .nil

/-- Gives a symbol a property. -/
def put (symbol : Symbol) (key value : Value) : EnvM Unit :=
  fun ⟨values, functions, properties, bindings⟩ =>
    let properties := properties.alter symbol.name fun known =>
      some ((known.getD #[]).put key value)
    (.ok (), ⟨values, functions, properties, bindings⟩)

end Environment

end ByteLisp
