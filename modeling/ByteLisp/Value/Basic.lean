import ByteLisp.Number.Double
import ByteLisp.Primitive.Signature
import ByteLisp.Value.Symbol

/-!
# Values

A value is either complete in itself or refers to an object of the heap by its
address. Conses, vectors, strings and functions are objects: each has an
identity of its own, which its address stands for.
-/

namespace ByteLisp

/-- The place of an object among the objects of its kind. -/
abbrev Address := Nat

/-- A Lisp value. The symbol named `nil` is usually written `nil`; as a plain
symbol it behaves in the same way. -/
inductive Value where
  | nil
  | int (n : Int64)
  | float (x : Double)
  | symbol (name : Symbol)
  | cons (cell : Address)
  | vector (address : Address)
  | string (address : Address)
  | function (address : Address)
  | primitive (builtIn : Primitive)
deriving DecidableEq, Repr, Inhabited

namespace Value

/-- The value of a symbol as data; the symbol `nil` gives `nil`. -/
def ofSymbol (symbol : Symbol) : Value :=
  if symbol.isNil then .nil else .symbol symbol

/-- The value that stands for true. -/
def t : Value := .symbol Symbol.t

/-- The value that stands for a truth value. -/
def ofBool (truth : Bool) : Value :=
  if truth then t else .nil

/-- The value is `nil`, in one of its two forms. -/
def isNil : Value → Bool
  | nil => true
  | symbol name => name.isNil
  | _ => false

/-- The value is a cons. -/
def isCons : Value → Bool
  | cons _ => true
  | _ => false

/-- Whether the value is `nil` or a cons. -/
def isList (value : Value) : Bool :=
  value.isNil || value.isCons

/-- The value is a symbol. -/
def isSymbol : Value → Bool
  | nil | symbol _ => true
  | _ => false

/-- The value is an integer or a float. -/
def isNumber : Value → Bool
  | int _ | float _ => true
  | _ => false

/-- The integer that the value is. -/
def int? : Value → Option Int64
  | int n => some n
  | _ => none

/-- The symbol that the value is, `nil` included. -/
def symbol? : Value → Option Symbol
  | nil => some Symbol.nil
  | symbol name => some name
  | _ => none

/-- Whether the two values are identical: the same object, the same number of
the same kind, or the same symbol. Both forms of `nil` are identical. -/
def isEq (left right : Value) : Bool :=
  left == right || (left.isNil && right.isNil)

/-- The kind of a value in words. -/
def typeName : Value → String
  | nil | symbol _ => "symbol"
  | int _ => "integer"
  | float _ => "float"
  | cons _ => "cons"
  | vector _ => "vector"
  | string _ => "string"
  | function _ => "compiled-function"
  | primitive _ => "subr"

@[simp] theorem isNil_nil : nil.isNil = true := rfl

@[simp] theorem isNil_cons (cell : Address) : (cons cell).isNil = false := rfl

@[simp] theorem isCons_cons (cell : Address) : (cons cell).isCons = true := rfl

/-- Every value is identical to itself. -/
@[simp] theorem isEq_refl (value : Value) : value.isEq value = true := by
  simp [isEq]

/-- The only other value identical to a given one is the other form of `nil`. -/
theorem isEq_iff (left right : Value) :
    left.isEq right = true ↔ left = right ∨ (left.isNil = true ∧ right.isNil = true) := by
  simp [isEq]

/-- A cons is identical to itself only. -/
theorem isCons_and_isEq_iff {left right : Value} :
    (right.isCons && left.isEq right) = true ↔ right.isCons = true ∧ left = right := by
  cases right <;> simp [isCons, isEq]

end Value

end ByteLisp
