import ByteLisp.Code.Error
import ByteLisp.Value.Basic

/-!
# Faults

A fault is the cause for which an operation or a run fails. It may refer to
values; its text is made from the heap at hand when it is shown. A failure of
a run adds the places, from the outermost activation to the innermost, at
which the fault passed through.
-/

namespace ByteLisp

/-- What a value was required to be. -/
inductive Expectation where
  | listp | consp | symbolp | integerp | numberOrMarkerp | integerOrMarkerp | sequencep | arrayp
  | vectorp | stringp | characterp | charOrStringp | wholenump
deriving DecidableEq, Repr

/-- The name of the predicate that was expected to hold. -/
def Expectation.text : Expectation → String
  | listp => "listp"
  | consp => "consp"
  | symbolp => "symbolp"
  | integerp => "integerp"
  | numberOrMarkerp => "number-or-marker-p"
  | integerOrMarkerp => "integer-or-marker-p"
  | sequencep => "sequencep"
  | arrayp => "arrayp"
  | vectorp => "vectorp"
  | stringp => "stringp"
  | characterp => "characterp"
  | charOrStringp => "char-or-string-p"
  | wholenump => "wholenump"

/-- Integer operations whose result may not fit. -/
inductive ArithmeticOp where
  | add | sub | mul | div
deriving DecidableEq, Repr

/-- The name of the operation. -/
def ArithmeticOp.text : ArithmeticOp → String
  | add => "+"
  | sub => "-"
  | mul => "*"
  | div => "/"

/-- Why an object has no saved form. -/
inductive Unsaveable where
  | depthTooLarge (depth : Nat)
  | circularList
  | builtIn (primitive : Primitive)
deriving DecidableEq, Repr

/-- What stands in the way of saving. -/
def Unsaveable.text : Unsaveable → String
  | depthTooLarge depth => s!"max depth {depth} too large"
  | circularList => "circular list in constant"
  | builtIn primitive => s!"primitive {primitive.name} is not serializable"

/-- The causes of failure. -/
inductive Fault where
  /-- A function was called with a number of arguments that it does not take. -/
  | arityMismatch (function : Value) (arity : Arity) (supplied : Nat)
  /-- The symbol has no value. -/
  | voidVariable (symbol : Symbol)
  /-- The function cell of the symbol is empty. -/
  | voidFunction (symbol : Symbol)
  /-- The value cannot be called. -/
  | invalidFunction (value : Value)
  /-- The value is not what was required. -/
  | wrongType (expected : Expectation) (value : Value)
  /-- The symbol is a constant. -/
  | settingConstant (symbol : Symbol)
  /-- The operand stack may not hold more than `limit` values. -/
  | stackDepthExceeded (limit : Nat)
  /-- There are not enough values on the operand stack. -/
  | stackUnderflow
  /-- The operand stack has no such slot, counted from the top. -/
  | stackSlotOutOfRange (slot depth : Nat)
  /-- The function has no such constant. -/
  | constantOutOfRange (index size : Nat)
  /-- The jump leaves the code. -/
  | invalidJump (target length : Nat)
  /-- The code ended without a return. -/
  | missingReturn
  /-- More bindings were to be undone than there are. -/
  | unbindUnderflow (requested available : Nat)
  /-- There are too many live activations. -/
  | excessiveNesting (limit : Nat)
  /-- A division by zero. -/
  | divisionByZero
  /-- The result does not fit 64 bits. -/
  | overflow (operation : ArithmeticOp)
  /-- The positions lie outside the sequence. -/
  | argsOutOfRange (sequence positions : Value)
  /-- The value is not a parameter list. -/
  | malformedParameters (list : Value)
  /-- The object has no saved form. -/
  | unsaveable (reason : Unsaveable)
  /-- No memory can hold a vector of this size. -/
  | capacityExceeded (size : Nat)
  /-- The code or the saved image is not right. -/
  | code (error : CodeError)
deriving DecidableEq, Repr

/-- Whether the fault stops the whole machine. No error reports such a fault to the host: the host
itself is stopped with the machine, and nobody sees what is left behind. -/
def Fault.isFatal : Fault → Bool
  | .capacityExceeded _ => true
  | _ => false

/-- What an activation was doing when a fault passed through it. -/
inductive Doing where
  | executing (opcode : Opcode)
  | decoding
  | atEnd
deriving DecidableEq, Repr

/-- What an activation was doing, as it is shown with a failure. -/
def Doing.text : Doing → String
  | executing opcode => opcode.mnemonic
  | decoding => "<decode>"
  | atEnd => "<end>"

/-- A place in the code of an activation. -/
structure Site where
  pc : Nat
  doing : Doing
deriving DecidableEq, Repr

/-- A fault with the sites of the activations that it ended, outermost first. -/
structure Failure where
  cause : Fault
  sites : List Site := []
deriving DecidableEq, Repr

/-- The failure as the next outer activation sees it. -/
def Failure.within (failure : Failure) (site : Site) : Failure :=
  { failure with sites := site :: failure.sites }

end ByteLisp
