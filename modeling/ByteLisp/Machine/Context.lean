import ByteLisp.Machine.OperandStack
import ByteLisp.Machine.Settings
import ByteLisp.Machine.Statistics
import ByteLisp.Machine.Trace
import ByteLisp.Memory

/-!
# The context of execution

A context holds everything that outlives a single activation: the memory, the
number of live activations, and what has been observed so far. Statistics and
trace are only ever written to; nothing that a program computes depends on them.
-/

namespace ByteLisp

/-- The state of a machine between instructions, activations apart. -/
structure Context where
  memory : Memory := {}
  settings : Settings := {}
  statistics : Statistics := {}
  /-- The trace, when one is kept. -/
  trace : Option TraceRing := none
  /-- The number of live activations. -/
  callDepth : Nat := 0
  /-- The number of instructions that have been traced. -/
  traced : Nat := 0

namespace Context

/-- A context in which nothing has happened yet. -/
def new (env : Environment) (settings : Settings) : Context where
  memory := { env }
  settings
  trace := if settings.trace.enabled then some { capacity := settings.trace.capacity } else none

/-- Updates the statistics, when they are collected. -/
@[inline] def count (context : Context) (update : Statistics → Statistics) : Context :=
  match context with
  | ⟨memory, settings, statistics, trace, callDepth, traced⟩ =>
    let statistics := if settings.collectStatistics then update statistics else statistics
    ⟨memory, settings, statistics, trace, callDepth, traced⟩

/-- Records an instruction that is about to be executed. -/
@[inline] def recordInstruction (context : Context) (pc : Nat) (instruction : Instruction)
    (stackDepth : Nat) : Context :=
  match context with
  | ⟨memory, settings, statistics, trace, callDepth, traced⟩ =>
    let statistics :=
      if settings.collectStatistics then statistics.recordInstruction instruction.opcode
      else statistics
    match trace with
    | none => ⟨memory, settings, statistics, none, callDepth, traced⟩
    | some ring =>
      let entry : TraceEntry :=
        ⟨traced + 1, pc, instruction.opcode, instruction.operand, stackDepth, callDepth⟩
      ⟨memory, settings, statistics, some (ring.push entry), callDepth, traced + 1⟩

/-- Runs an operation on the memory. -/
@[inline] def perform {α : Type} (context : Context) (action : Action α) :
    Except Fault α × Context :=
  match context with
  | ⟨memory, settings, statistics, trace, callDepth, traced⟩ =>
    let (result, memory) := action memory
    (result, ⟨memory, settings, statistics, trace, callDepth, traced⟩)

/-- Makes room for one more activation, within the limit. -/
def enter (context : Context) : Except Fault Unit × Context :=
  match context with
  | ⟨memory, settings, statistics, trace, callDepth, traced⟩ =>
    if callDepth < settings.maxCallDepth then
      (.ok (), ⟨memory, settings, statistics, trace, callDepth + 1, traced⟩)
    else
      (.error (.excessiveNesting settings.maxCallDepth),
        ⟨memory, settings, statistics, trace, callDepth, traced⟩)

/-- Ends an activation: its bindings are undone down to `base`, and it no
longer counts as live. -/
def exit (context : Context) (base highWater : Nat) (failed : Bool) : Context :=
  match context with
  | ⟨⟨heap, env⟩, settings, statistics, trace, callDepth, traced⟩ =>
    let (restored, env) := env.unbindTo base
    let context : Context :=
      ⟨⟨heap, env⟩, settings, statistics, trace, callDepth - 1, traced⟩
    context.count (·.recordExit restored highWater failed)

/-- The statistics collected so far, and the context with new ones. -/
def takeStatistics (context : Context) : Statistics × Context :=
  (context.statistics, { context with statistics := {} })

end Context

end ByteLisp
