import ByteLisp.Heap.Basic

/-!
# Data

A datum is a value without a heap: a tree that can be written down and read
back. Sharing between the parts of a value is lost in it.
-/

namespace ByteLisp

/-- A function written down with parts of type `α`. -/
structure Literal (α : Type) where
  /-- The argument descriptor or the list of parameter names. -/
  parameters : α
  code : Bytes
  constants : List α
  maxDepth : UInt32
  documentation : Option Documentation := none
  interactive : Option α := none

/-- A value written down. -/
inductive Datum where
  | nil
  | int (n : Int64)
  | float (x : Double)
  | string (bytes : Bytes)
  | symbol (name : String)
  /-- A list that ends in `nil`. -/
  | list (items : List Datum)
  /-- A list that ends in `tail`. -/
  | dotted (items : List Datum) (tail : Datum)
  | vector (items : List Datum)
  | function (literal : Literal Datum)

/-- A function written down. -/
abbrev FunctionLiteral := Literal Datum

namespace Datum

/-- The string with the bytes of a text. -/
def ofText (text : String) : Datum :=
  .string (Bytes.ofText text)

/-- The list of the items; the empty one is `nil`. -/
def ofItems (items : List Datum) : Datum :=
  match items with
  | [] => .nil
  | _ => .list items

/-- The symbol of a value; the symbol `nil` is `nil`. -/
def ofSymbol (symbol : Symbol) : Datum :=
  if symbol.isNil then .nil else .symbol symbol.name

mutual

/-- Whether two data are the same, where floating point numbers are compared as
numbers: `0.0` and `-0.0` are the same, and a not-a-number differs from
itself. -/
def same : Datum → Datum → Bool
  | .nil, .nil => true
  | .int m, .int n => m = n
  | .float x, .float y => x.compare? y = some .eq
  | .string left, .string right => left = right
  | .symbol left, .symbol right => left = right
  | .list left, .list right => sameItems left right
  | .dotted left leftTail, .dotted right rightTail =>
    sameItems left right && same leftTail rightTail
  | .vector left, .vector right => sameItems left right
  | .function left, .function right => sameLiteral left right
  | _, _ => false

/-- Whether two lists have the same items in the same order. -/
def sameItems : List Datum → List Datum → Bool
  | [], [] => true
  | left :: lefts, right :: rights => same left right && sameItems lefts rights
  | _, _ => false

/-- Whether both parts are missing, or both are there and the same. -/
def sameOption : Option Datum → Option Datum → Bool
  | none, none => true
  | some left, some right => same left right
  | _, _ => false

/-- Whether two functions have the same parts. -/
def sameLiteral : Literal Datum → Literal Datum → Bool
  | ⟨leftParameters, leftCode, leftConstants, leftDepth, leftDocumentation, leftInteractive⟩,
    ⟨rightParameters, rightCode, rightConstants, rightDepth, rightDocumentation,
      rightInteractive⟩ =>
    same leftParameters rightParameters && leftCode = rightCode &&
      sameItems leftConstants rightConstants && leftDepth = rightDepth &&
      leftDocumentation = rightDocumentation && sameOption leftInteractive rightInteractive

end

end Datum

end ByteLisp
