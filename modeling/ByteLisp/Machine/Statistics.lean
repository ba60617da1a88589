import ByteLisp.Code.Instruction
import ByteLisp.Parameters

/-!
# Execution statistics
-/

namespace ByteLisp

/-- Counters of what a machine has done. -/
structure Statistics where
  instructions : Nat := 0
  stackRefs : Nat := 0
  variableLookups : Nat := 0
  calls : Nat := 0
  dynamicActivations : Nat := 0
  lexicalActivations : Nat := 0
  primitiveCalls : Nat := 0
  bindingsPushed : Nat := 0
  bindingsRestored : Nat := 0
  failedActivations : Nat := 0
  maxOperandDepth : Nat := 0
  maxCallDepth : Nat := 0
deriving DecidableEq, Repr

namespace Statistics

/-- Counts an instruction. -/
@[inline] def recordInstruction (stats : Statistics) (opcode : Opcode) : Statistics :=
  let stats := { stats with instructions := stats.instructions + 1 }
  match opcode with
  | .stackRef => { stats with stackRefs := stats.stackRefs + 1 }
  | .varRef | .varSet | .symbolValue => { stats with variableLookups := stats.variableLookups + 1 }
  | _ => stats

/-- Counts a call. -/
def recordCall (stats : Statistics) : Statistics :=
  { stats with calls := stats.calls + 1 }

/-- Counts a call of a built-in function. -/
def recordPrimitive (stats : Statistics) : Statistics :=
  { stats with primitiveCalls := stats.primitiveCalls + 1 }

/-- Counts bindings made by an instruction. -/
def recordBound (stats : Statistics) (count : Nat) : Statistics :=
  { stats with bindingsPushed := stats.bindingsPushed + count }

/-- Counts bindings undone by an instruction. -/
def recordRestored (stats : Statistics) (count : Nat) : Statistics :=
  { stats with bindingsRestored := stats.bindingsRestored + count }

/-- Counts a new activation with the bindings it started with. -/
def recordActivation (stats : Statistics) (convention : Convention) (bound callDepth : Nat) :
    Statistics :=
  let stats := match convention with
    | .dynamic => { stats with dynamicActivations := stats.dynamicActivations + 1 }
    | .lexical => { stats with lexicalActivations := stats.lexicalActivations + 1 }
  { stats.recordBound bound with maxCallDepth := max stats.maxCallDepth callDepth }

/-- Counts the end of an activation. -/
def recordExit (stats : Statistics) (restored highWater : Nat) (failed : Bool) : Statistics :=
  { stats.recordRestored restored with
    maxOperandDepth := max stats.maxOperandDepth highWater
    failedActivations := stats.failedActivations + if failed then 1 else 0 }

/-- The activations of both conventions. -/
def activations (stats : Statistics) : Nat :=
  stats.dynamicActivations + stats.lexicalActivations

/-- The statistics of two periods together. -/
def add (first second : Statistics) : Statistics where
  instructions := first.instructions + second.instructions
  stackRefs := first.stackRefs + second.stackRefs
  variableLookups := first.variableLookups + second.variableLookups
  calls := first.calls + second.calls
  dynamicActivations := first.dynamicActivations + second.dynamicActivations
  lexicalActivations := first.lexicalActivations + second.lexicalActivations
  primitiveCalls := first.primitiveCalls + second.primitiveCalls
  bindingsPushed := first.bindingsPushed + second.bindingsPushed
  bindingsRestored := first.bindingsRestored + second.bindingsRestored
  failedActivations := first.failedActivations + second.failedActivations
  maxOperandDepth := max first.maxOperandDepth second.maxOperandDepth
  maxCallDepth := max first.maxCallDepth second.maxCallDepth

end Statistics

end ByteLisp
