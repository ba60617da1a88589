import ByteLisp.Code.Instruction

/-!
# Instruction traces

A trace keeps the last instructions that were executed, up to its capacity.
-/

namespace ByteLisp

/-- An instruction at the moment before it was executed. -/
structure TraceEntry where
  number : Nat
  pc : Nat
  opcode : Opcode
  operand : UInt16
  stackDepth : Nat
  callDepth : Nat
deriving DecidableEq, Repr

namespace TraceEntry

/-- The text with blanks before it, up to the width. -/
def padBefore (width : Nat) (text : String) : String :=
  String.ofList (List.replicate (width - text.length) ' ') ++ text

/-- The text with blanks after it, up to the width. -/
def padAfter (width : Nat) (text : String) : String :=
  text ++ String.ofList (List.replicate (width - text.length) ' ')

/-- The line that shows the entry. -/
def line (entry : TraceEntry) : String :=
  padBefore 8 (toString entry.number) ++ "  " ++ padBefore 2 (toString entry.callDepth) ++ "  " ++
    padBefore 6 (toString entry.pc) ++ "  " ++ padAfter 26 entry.opcode.mnemonic ++ " " ++
    padBefore 5 (toString entry.operand.toNat) ++ "  depth=" ++ toString entry.stackDepth

end TraceEntry

/-- The most recent entries. Once the ring is full, a new entry takes the place
of the oldest one, which is at `head`. -/
structure TraceRing where
  capacity : Nat
  entries : Array TraceEntry := #[]
  head : Nat := 0
  /-- Whether there are `capacity` entries. -/
  full : Bool := false
deriving DecidableEq, Repr

namespace TraceRing

/-- Adds an entry. -/
def push (ring : TraceRing) (entry : TraceEntry) : TraceRing :=
  match ring with
  | ⟨capacity, entries, head, full⟩ =>
    if capacity = 0 then ⟨capacity, entries, head, full⟩
    else if full then ⟨capacity, entries.setIfInBounds head entry, (head + 1) % capacity, full⟩
    else
      let entries := entries.push entry
      ⟨capacity, entries, head, entries.size = capacity⟩

/-- The place of the oldest entry. -/
def oldest (ring : TraceRing) : Nat :=
  if ring.full then ring.head else 0

/-- The entries from the oldest to the newest. -/
def toList (ring : TraceRing) : List TraceEntry :=
  ring.entries.toList.drop ring.oldest ++ ring.entries.toList.take ring.oldest

/-- Drops all entries. -/
def clear (ring : TraceRing) : TraceRing :=
  ⟨ring.capacity, #[], 0, false⟩

/-- One line for each entry, the oldest first. -/
def dump (ring : TraceRing) : String :=
  String.join (ring.toList.map fun entry => entry.line ++ "\n")

end TraceRing

end ByteLisp
