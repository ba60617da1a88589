import ByteLisp.Memory
import ByteLisp.Operation.Arithmetic
import ByteLisp.Operation.Functions
import ByteLisp.Operation.Sequences

/-!
# Calling built-in functions
-/

namespace ByteLisp

/-! Operations on the cells of a symbol that is given as a value. -/

namespace Cells

/-- The value of a variable. -/
def symbolValue (symbol : Value) : Action Value := do
  let name ← Action.ofExcept symbol.expectSymbol
  Action.ask (·.symbolValue name)

/-- The definition of a function. -/
def symbolFunction (symbol : Value) : Action Value := do
  let name ← Action.ofExcept symbol.expectSymbol
  Action.ask fun env => .ok (env.symbolFunction name)

/-- Sets a variable. -/
def set (symbol value : Value) : Action Value := do
  let name ← Action.ofExcept symbol.expectSymbol
  Action.onEnv (Environment.set name value)
  return value

/-- Defines a function. -/
def fset (symbol definition : Value) : Action Value := do
  let name ← Action.ofExcept symbol.expectSymbol
  Action.onEnv (Environment.fset name definition)
  return definition

/-- Takes away the value of a variable. -/
def makeUnbound (symbol : Value) : Action Value := do
  let name ← Action.ofExcept symbol.expectSymbol
  Action.onEnv (Environment.makeUnbound name)
  return symbol

/-- The variable has a value. -/
def isBound (symbol : Value) : Action Value := do
  let name ← Action.ofExcept symbol.expectSymbol
  Action.ask fun env => .ok (Value.ofBool (env.isBound name))

/-- The symbol has a definition. -/
def isFunctionBound (symbol : Value) : Action Value := do
  let name ← Action.ofExcept symbol.expectSymbol
  Action.ask fun env => .ok (Value.ofBool (env.isFunctionBound name))

/-- The property under a key. -/
def get (symbol key : Value) : Action Value := do
  let name ← Action.ofExcept symbol.expectSymbol
  Action.ask fun env => .ok (env.get name key)

/-- Sets the property under a key. -/
def put (symbol key value : Value) : Action Value := do
  let name ← Action.ofExcept symbol.expectSymbol
  Action.onEnv (Environment.put name key value)
  return value

/-- A new list of the keys and values of a symbol's properties. -/
def propertyList (symbol : Value) : Action Value := do
  let name ← Action.ofExcept symbol.expectSymbol
  let items ← Action.ask fun env => .ok (env.propertyList name).flat
  Action.onHeap (HeapM.make (·.list items))

end Cells

namespace Primitive

/-- The fault of a call with a number of arguments that is not accepted. -/
def arityMismatch (primitive : Primitive) (arguments : List Value) : Fault :=
  .arityMismatch (.primitive primitive) primitive.arity arguments.length

/-- Joins lists by linking the end of each to the next, from the last list on. -/
def nconcAll (lists : List Value) : HeapM Value :=
  lists.reverse.foldlM (fun joined list => Lists.nconc list joined) .nil

/-- The difference of the first number and all others; of one number alone, its
negation. -/
def difference : List Value → Except Fault Value
  | [] => .ok (.int 0)
  | [n] => Arithmetic.negate n
  | first :: rest => rest.foldlM Arithmetic.diff first

/-- The number of bytes that a value takes up in a vector. -/
def valueWidth : Nat := 24

/-- The largest number of elements that a vector can have: together they take up less than half
of the addresses. -/
def maxVectorSize : Nat := (UInt64.size / 2 - 1) / valueWidth

/-- The size of a new vector. -/
def vectorSize (size : Value) : Except Fault Nat := do
  let count ← Functions.wholeNumber size
  if count ≤ maxVectorSize then return count else throw (.capacityExceeded count)

/-- A new vector with one value in all places. -/
def newVector (size value : Value) : HeapM Value := do
  let count ← HeapM.look fun _ => vectorSize size
  HeapM.make (·.newVector (Array.replicate count value))

/-- The value is a vector. -/
def isVector : Value → Bool
  | .vector _ => true
  | _ => false

/-- The value is a string. -/
def isString : Value → Bool
  | .string _ => true
  | _ => false

/-- The value can be called without looking up a definition. -/
def isFunction : Value → Bool
  | .function _ | .primitive _ => true
  | _ => false

/-- What a built-in function does with arguments of an accepted number. -/
def apply (primitive : Primitive) (arguments : List Value) : Action Value :=
  match primitive, arguments with
  | car, [x] => Action.look (·.car x)
  | cdr, [x] => Action.look (·.cdr x)
  | carSafe, [x] => Action.look fun heap => .ok (Lists.carSafe heap x)
  | cdrSafe, [x] => Action.look fun heap => .ok (Lists.cdrSafe heap x)
  | cons, [a, b] => Action.onHeap (HeapM.make (·.cons a b))
  | list, items => Action.onHeap (HeapM.make (·.list items))
  | length, [x] => Action.look (Sequences.length · x)
  | nth, [n, x] => Action.look (Lists.nth · n x)
  | nthcdr, [n, x] => Action.look (Lists.nthcdr · n x)
  | elt, [x, n] => Action.look (Sequences.elt · x n)
  | memq, [a, x] => Action.look (Lists.memq · a x)
  | member, [a, x] => Action.look (Lists.member · a x)
  | assq, [a, x] => Action.look (Lists.assq · a x)
  | nreverse, [x] => Action.onHeap (Lists.nreverse x)
  | reverse, [x] => Action.onHeap (Lists.reverse x)
  | nconc, lists => Action.onHeap (nconcAll lists)
  | setcar, [a, x] => Action.onHeap (Lists.setcar a x)
  | setcdr, [a, x] => Action.onHeap (Lists.setcdr a x)
  | eq, [a, b] => return Value.ofBool (a.isEq b)
  | equal, [a, b] => Action.look fun heap => .ok (Value.ofBool (heap.equal a b))
  | not, [x] | null, [x] => return Value.ofBool x.isNil
  | symbolp, [x] => return Value.ofBool x.isSymbol
  | consp, [x] => return Value.ofBool x.isCons
  | listp, [x] => return Value.ofBool x.isList
  | stringp, [x] => return Value.ofBool (isString x)
  | numberp, [x] => return Value.ofBool x.isNumber
  | integerp, [x] => return Value.ofBool x.int?.isSome
  | vectorp, [x] => return Value.ofBool (isVector x)
  | functionp, [x] => return Value.ofBool (isFunction x)
  | plus, numbers => Action.ofExcept (numbers.foldlM Arithmetic.plus (.int 0))
  | times, numbers => Action.ofExcept (numbers.foldlM Arithmetic.mult (.int 1))
  | minus, numbers => Action.ofExcept (difference numbers)
  | divide, first :: rest => Action.ofExcept (rest.foldlM Arithmetic.quo first)
  | remainder, [a, b] => Action.ofExcept (Arithmetic.rem a b)
  | add1, [n] => Action.ofExcept (Arithmetic.add1 n)
  | sub1, [n] => Action.ofExcept (Arithmetic.sub1 n)
  | numEq, [a, b] => Action.ofExcept (Arithmetic.numEq a b)
  | less, [a, b] => Action.ofExcept (Arithmetic.less a b)
  | greater, [a, b] => Action.ofExcept (Arithmetic.greater a b)
  | lessEq, [a, b] => Action.ofExcept (Arithmetic.lessEq a b)
  | greaterEq, [a, b] => Action.ofExcept (Arithmetic.greaterEq a b)
  | max, first :: rest => Action.ofExcept (rest.foldlM Arithmetic.max first)
  | min, first :: rest => Action.ofExcept (rest.foldlM Arithmetic.min first)
  | vector, items => Action.onHeap (HeapM.make (·.newVector items.toArray))
  | makeVector, [size, x] => Action.onHeap (newVector size x)
  | aref, [a, n] => Action.look (Sequences.aref · a n)
  | aset, [a, n, x] => Action.onHeap (Sequences.aset a n x)
  | concat, parts => Action.onHeap (Sequences.concat parts)
  | substring, [x] => Action.onHeap (Sequences.substring x .nil .nil)
  | substring, [x, start] => Action.onHeap (Sequences.substring x start .nil)
  | substring, [x, start, stop] => Action.onHeap (Sequences.substring x start stop)
  | stringEq, [a, b] => Action.look (Sequences.stringEq · a b)
  | stringLess, [a, b] => Action.look (Sequences.stringLess · a b)
  | upcase, [x] => Action.onHeap (Sequences.upcase x)
  | downcase, [x] => Action.onHeap (Sequences.downcase x)
  | symbolValue, [s] => Cells.symbolValue s
  | symbolFunction, [s] => Cells.symbolFunction s
  | set, [s, x] => Cells.set s x
  | fset, [s, x] => Cells.fset s x
  | boundp, [s] => Cells.isBound s
  | fboundp, [s] => Cells.isFunctionBound s
  | makunbound, [s] => Cells.makeUnbound s
  | get, [s, key] => Cells.get s key
  | put, [s, key, x] => Cells.put s key x
  | symbolPlist, [s] => Cells.propertyList s
  | makeByteCode, [p, c, k, d] => Action.onHeap (Functions.makeByteCode p c k d .nil .nil)
  | makeByteCode, [p, c, k, d, doc] => Action.onHeap (Functions.makeByteCode p c k d doc .nil)
  | makeByteCode, [p, c, k, d, doc, form] =>
    Action.onHeap (Functions.makeByteCode p c k d doc form)
  | _, _ => throw (primitive.arityMismatch arguments)

/-- Calls a built-in function; the number of arguments is checked first. -/
def call (primitive : Primitive) (arguments : List Value) : Action Value :=
  if primitive.arity.accepts arguments.length then primitive.apply arguments
  else throw (primitive.arityMismatch arguments)

end Primitive

end ByteLisp
