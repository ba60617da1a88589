import ByteLisp.Decimal.Shortest
import ByteLisp.Fault
import ByteLisp.Heap.Basic

/-!
# Printed forms

Every value has a printed form. Structure nested deeper than a limit and the
part of a list beyond a number of elements are elided, so that the printed form
of a circular list is finite.
-/

namespace ByteLisp

namespace Double

/-- Numbers are printed with the fewest digits that identify them, of two
equally near ones the larger, and never with an exponent. Integers below
`10 ^ 16` end in `.0`. -/
def text (x : Double) : String :=
  let sign := if x.isNegative then "-" else ""
  if x.isNaN then "0.0e+NaN"
  else if x.isInfinite then sign ++ "1.0e+INF"
  else if x.magnitude = 0 then sign ++ "0.0"
  else
    let decimal := Decimal.shortest .up (Binary.ofDouble x)
    let digits := String.ofList decimal.positional
    if 0 ≤ decimal.exponent && decimal.point ≤ 16 then sign ++ digits ++ ".0" else sign ++ digits

end Double

namespace Printer

/-- Structure nested deeper than this is elided. -/
def maxDepth : Nat := 64

/-- The part of a list after this number of elements is elided. -/
def maxLength : Nat := 4096

/-- A character by its number in octal. -/
def octal (number : Nat) : String :=
  "\\" ++ String.ofList (Nat.toDigits 8 number)

/-- A character inside a printed string of text. Quotes and backslashes are
escaped, and so are control characters other than newline and tab. -/
def character (c : Char) : String :=
  if c = '"' || c = '\\' then "\\" ++ c.toString
  else if c = '\n' || c = '\t' then c.toString
  else if c.toNat < 32 || (127 ≤ c.toNat && c.toNat < 160) then octal c.toNat
  else c.toString

/-- A byte inside a printed string that is not text. -/
def byte (b : UInt8) : String :=
  if b = 34 || b = 92 then "\\" ++ (Char.ofNat b.toNat).toString
  else if 32 ≤ b.toNat && b.toNat ≤ 126 then (Char.ofNat b.toNat).toString
  else octal b.toNat

/-- A printed string: character by character when the bytes are UTF-8, byte by
byte otherwise. -/
def string (bytes : PackedBytes) : String :=
  let inside := match bytes.text? with
    | some text => text.toList.foldl (fun done c => done ++ character c) ""
    | none => bytes.foldl (fun done b => done ++ byte b) ""
  "\"" ++ inside ++ "\""

/-- The printed forms of a list's elements as one list, elided when too long. -/
def proper (elements : List String) : String :=
  match elements with
  | [] => "nil"
  | _ =>
    let shown := " ".intercalate (elements.take maxLength)
    if maxLength < elements.length then "(" ++ shown ++ " ...)" else "(" ++ shown ++ ")"

/-- Parameters as they stand in a function object. -/
def parameters : Parameters → String
  | .dynamic list => proper (list.toSymbols.map Symbol.name)
  | .lexical descriptor => toString descriptor.encode.toInt

/-- Prints the rest of a list whose earlier elements are printed, with room for
`room` more of them. -/
def spine (heap : Heap) (element : Value → String) (room : Nat) (tail : Value) (done : String) :
    String :=
  match tail with
  | .cons cell =>
    match room with
    | 0 => done ++ " ...)"
    | room + 1 =>
      let pair := heap.pair cell
      spine heap element room pair.cdr (done ++ " " ++ element pair.car)
  | _ => if tail.isNil then done ++ ")" else done ++ " . " ++ element tail ++ ")"

/-- Prints a value with `levels` levels of nesting left. -/
def value (heap : Heap) : Nat → Value → String
  | 0, _ => "..."
  | levels + 1, value =>
    let element := Printer.value heap levels
    match value with
    | .nil => "nil"
    | .int n => toString n.toInt
    | .float x => x.text
    | .symbol symbol => symbol.name
    | .string address => string (heap.string address)
    | .cons cell =>
      let pair := heap.pair cell
      spine heap element (maxLength - 1) pair.cdr ("(" ++ element pair.car)
    | .vector address =>
      "[" ++ " ".intercalate ((heap.vector address).toList.map element) ++ "]"
    | .function address =>
      let function := heap.function address
      "#[" ++ parameters function.parameters ++ " " ++ string (.ofBytes function.code) ++ " [" ++
        " ".intercalate (function.constants.toList.map element) ++ "] " ++
        toString function.maxDepth ++ "]"
    | .primitive primitive => "#<subr " ++ primitive.name ++ ">"

end Printer

namespace Heap

/-- The printed form of a value. -/
def print (heap : Heap) (value : Value) : String :=
  Printer.value heap (Printer.maxDepth + 1) value

end Heap

namespace Fault

/-- The text of a fault, with the values it refers to as they are in `heap`. -/
def message (heap : Heap) : Fault → String
  | arityMismatch function arity supplied =>
    s!"wrong-number-of-arguments: {heap.print function} accepts {arity.text}, got {supplied}"
  | voidVariable symbol => s!"void-variable: {symbol.name}"
  | voidFunction symbol => s!"void-function: {symbol.name}"
  | invalidFunction value => s!"invalid-function: {heap.print value}"
  | wrongType expected value => s!"wrong-type-argument: {expected.text}, {heap.print value}"
  | settingConstant symbol => s!"setting-constant: {symbol.name}"
  | stackDepthExceeded limit => s!"stack depth exceeded: declared maximum is {limit}"
  | stackUnderflow => "operand stack underflow"
  | stackSlotOutOfRange slot depth => s!"stack slot {slot} out of range (depth {depth})"
  | constantOutOfRange index size => s!"constant index {index} out of range (pool size {size})"
  | invalidJump target length => s!"jump target {target} outside code of length {length}"
  | missingReturn => "end of code reached without return"
  | unbindUnderflow requested available =>
    s!"unbind of {requested} bindings with only {available} pushed by this activation"
  | excessiveNesting limit => s!"excessive-lisp-nesting: {limit}"
  | divisionByZero => "arith-error"
  | overflow operation => s!"overflow-error: {operation.text}"
  | argsOutOfRange sequence positions =>
    s!"args-out-of-range: {heap.print sequence}, {heap.print positions}"
  | malformedParameters list => s!"malformed argument list: {heap.print list}"
  | unsaveable reason => s!"invalid function object: {reason.text}"
  | capacityExceeded _ => "capacity overflow"
  | code error => s!"bytecode error: {error.message}"

end Fault

namespace Failure

/-- The text of a failure: the sites from the outside in, then the fault. -/
def message (heap : Heap) (failure : Failure) : String :=
  failure.sites.foldl (fun text site => text ++ s!"{site.doing.text} at pc {site.pc}: ") "" ++
    failure.cause.message heap

end Failure

end ByteLisp
