import ByteLisp.Heap.Parameters
import ByteLisp.Text.Lossy

/-!
# Making functions
-/

namespace ByteLisp

namespace Functions

/-- Makes a function whose parameters are written as `parameters`. -/
def make (parameters : Value) (code : Bytes) (constants : Array Value) (maxDepth : Nat)
    (documentation : Option Documentation := none) (interactive : Option Value := none) :
    HeapM Value := do
  let parameters ← HeapM.look (Parameters.ofValue · parameters)
  HeapM.make (·.newFunction ⟨parameters, code, constants, maxDepth, documentation, interactive⟩)

/-- The documentation that a value stands for: a string, or a cons of a file
name and an offset in that file. -/
def documentation (heap : Heap) (value : Value) : Except Fault Documentation :=
  match value with
  | .string address => .ok (.text (heap.string address).toBytes.lossyText)
  | .cons cell =>
    match heap.pair cell with
    | ⟨.string file, .int offset⟩ => .ok (.external (heap.string file).toBytes.lossyText offset)
    | _ => .error (.wrongType .stringp value)
  | _ => .error (.wrongType .stringp value)

/-- The code that a value stands for. -/
def codeOf (heap : Heap) (value : Value) : Except Fault Bytes :=
  match value with
  | .string address => .ok (heap.string address).toBytes
  | _ => .error (.wrongType .stringp value)

/-- The constants that a value stands for. -/
def constantsOf (heap : Heap) (value : Value) : Except Fault (Array Value) :=
  match value with
  | .vector address => .ok (heap.vector address)
  | _ => if value.isNil then .ok #[] else .error (.wrongType .vectorp value)

/-- The value as a natural number. -/
def wholeNumber (value : Value) : Except Fault Nat := do
  let n ← value.expectInt
  if 0 ≤ n.toInt then return n.toInt.toNat else throw (.wrongType .wholenump value)

/-- Makes a function out of values; a documentation or an interactive form that
is `nil` is left out. -/
def makeByteCode (parameters code constants depth documentation interactive : Value) :
    HeapM Value := do
  let bytes ← HeapM.look (codeOf · code)
  let items ← HeapM.look (constantsOf · constants)
  let maxDepth ← HeapM.look fun _ => wholeNumber depth
  let text ←
    if documentation.isNil then pure none
    else some <$> HeapM.look (Functions.documentation · documentation)
  make parameters bytes items maxDepth text (if interactive.isNil then none else some interactive)

end Functions

end ByteLisp
