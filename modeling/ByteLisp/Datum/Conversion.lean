import ByteLisp.Datum.Basic
import ByteLisp.Operation.Functions

/-!
# Values and data

Every value is written down as a datum unless a circular list, a built-in
function or a function of too large a depth can be reached from it. A datum
gives a value made of new objects; the symbol `nil` becomes `nil`.
-/

namespace ByteLisp

namespace Datum

/-- The parameters of a function written down. -/
def ofParameters : Parameters → Datum
  | .dynamic names => .ofItems (names.toSymbols.map ofSymbol)
  | .lexical descriptor => .int descriptor.encode

end Datum

namespace FunctionLiteral

/-- Writes down a function, with `write` for its parts. -/
def ofFunction (write : Value → Except Fault Datum) (function : Function) :
    Except Fault FunctionLiteral :=
  if function.maxDepth < UInt32.size then do
    let constants ← function.constants.toList.mapM write
    let interactive ← function.interactive.mapM write
    return ⟨.ofParameters function.parameters, function.code, constants,
      UInt32.ofNat function.maxDepth, function.documentation, interactive⟩
  else .error (.unsaveable (.depthTooLarge function.maxDepth))

end FunctionLiteral

namespace Heap

/-- Writes down a value that is nested at most `bound` deep; what is nested
deeper is circular. -/
def datumWithin (heap : Heap) : Nat → Value → Except Fault Datum
  | 0, _ => .error (.unsaveable .circularList)
  | bound + 1, value =>
    match value with
    | .nil => .ok .nil
    | .int n => .ok (.int n)
    | .float x => .ok (.float x)
    | .symbol symbol => .ok (.symbol symbol.name)
    | .string address => .ok (.string (heap.string address).toBytes)
    | .cons _ =>
      match heap.parts? value with
      | none => .error (.unsaveable .circularList)
      | some (items, tail) => do
        let items ← items.toList.mapM (datumWithin heap bound)
        if tail.isNil then return .list items
        return .dotted items (← datumWithin heap bound tail)
    | .vector address => do
      return .vector (← (heap.vector address).toList.mapM (datumWithin heap bound))
    | .function address => do
      let function := heap.function address
      return .function (← FunctionLiteral.ofFunction (datumWithin heap bound) function)
    | .primitive builtIn => .error (.unsaveable (.builtIn builtIn))

/-- A bound on the nesting of values that are not circular: every level but the
innermost goes through an object of its own, and an address past the end stands
for one empty object. -/
def nestingBound (heap : Heap) : Nat :=
  heap.pairs.size + heap.vectors.size + heap.functions.size + 2

/-- Writes down a value. -/
def datum (heap : Heap) (value : Value) : Except Fault Datum :=
  heap.datumWithin heap.nestingBound value

/-- Writes down a function. -/
def literal (heap : Heap) (address : Address) : Except Fault FunctionLiteral :=
  FunctionLiteral.ofFunction heap.datum (heap.function address)

end Heap

namespace Datum

mutual

/-- Makes the value of a datum. -/
def toValue : Datum → HeapM Value
  | .nil => pure .nil
  | .int n => pure (.int n)
  | .float x => pure (.float x)
  | .string bytes => HeapM.make (·.newString (.ofBytes bytes))
  | .symbol name => pure (.ofSymbol ⟨name⟩)
  | .list items => do
    let items ← itemsToValues items
    HeapM.make (·.list items)
  | .dotted items tail => do
    let items ← itemsToValues items
    let tail ← toValue tail
    HeapM.make (·.listWithTail items tail)
  | .vector items => do
    let items ← itemsToValues items
    HeapM.make (·.newVector items.toArray)
  | .function literal => literalToValue literal

/-- Makes the values of data in their order. -/
def itemsToValues : List Datum → HeapM (List Value)
  | [] => pure []
  | item :: items => do
    let value ← toValue item
    let values ← itemsToValues items
    return value :: values

/-- Makes the value of a datum that may be missing. -/
def optionToValue : Option Datum → HeapM (Option Value)
  | none => pure none
  | some datum => do return some (← toValue datum)

/-- Makes the function of a literal. -/
def literalToValue : Literal Datum → HeapM Value
  | ⟨parameters, code, constants, maxDepth, documentation, interactive⟩ => do
    let parameters ← toValue parameters
    let constants ← itemsToValues constants
    let interactive ← optionToValue interactive
    Functions.make parameters code constants.toArray maxDepth.toNat documentation interactive

end

end Datum

namespace FunctionLiteral

/-- Makes the function. -/
def toValue (literal : FunctionLiteral) : HeapM Value :=
  Datum.literalToValue literal

end FunctionLiteral

end ByteLisp
