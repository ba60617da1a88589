import ByteLisp.Proofs.MachineInvariant
import ByteLisp.Proofs.Observation

/-!
# The trace along a run

A ring of entries shows the entries that were added last, in the order in which they were
added. A machine adds one entry for each instruction that it is about to execute, so that
its ring stays well-formed and ends with the instruction that was started last.
-/

namespace ByteLisp

namespace TraceRing

/-- The ring holds no more than its capacity. Its flag says whether it holds as many, and the
oldest entry is the first one until it does. -/
structure Sound (ring : TraceRing) : Prop where
  size_le : ring.entries.size ≤ ring.capacity
  full_iff : ring.full = true ↔ 0 < ring.capacity ∧ ring.entries.size = ring.capacity
  head_lt : ring.full = true → ring.head < ring.capacity
  head_eq : ring.full = false → ring.head = 0

/-- A new ring is empty, whatever its capacity. -/
theorem Sound.empty (capacity : Nat) : Sound { capacity } where
  size_le := Nat.zero_le _
  full_iff := by
    simp only [Bool.false_eq_true, List.size_toArray, List.length_nil, false_iff]
    omega
  head_lt full := by cases full
  head_eq _ := rfl

/-- A ring that is cleared is as good as new. -/
theorem Sound.clear (ring : TraceRing) : ring.clear.Sound :=
  .empty ring.capacity

/-- A push leaves the capacity alone. -/
@[simp] theorem capacity_push (ring : TraceRing) (entry : TraceEntry) :
    (ring.push entry).capacity = ring.capacity := by
  obtain ⟨capacity, entries, head, full⟩ := ring
  unfold push
  dsimp only
  split
  · rfl
  · split <;> rfl

/-- The oldest entry is one of those that are there, if there are any. -/
theorem Sound.oldest_le {ring : TraceRing} (sound : ring.Sound) :
    ring.oldest ≤ ring.entries.size := by
  unfold oldest
  split
  · rename_i full
    have below := sound.head_lt full
    have size := (sound.full_iff.mp full).2
    omega
  · exact Nat.zero_le _

/-- A ring shows as many entries as it holds. -/
theorem length_toList {ring : TraceRing} (sound : ring.Sound) :
    ring.toList.length = ring.entries.size := by
  have within := sound.oldest_le
  simp only [toList, List.length_append, List.length_drop, List.length_take, Array.length_toList]
  omega

/-- A push keeps the ring sound: an entry is added at the end until the ring is full, and from
then on the head goes round. -/
theorem Sound.push {ring : TraceRing} (sound : ring.Sound) (entry : TraceEntry) :
    (ring.push entry).Sound := by
  obtain ⟨capacity, entries, head, full⟩ := ring
  obtain ⟨size_le, full_iff, head_lt, head_eq⟩ := sound
  simp only at size_le full_iff head_lt head_eq
  unfold TraceRing.push
  dsimp only
  split
  · exact ⟨size_le, full_iff, head_lt, head_eq⟩
  · rename_i nonempty
    have positive : 0 < capacity := Nat.pos_of_ne_zero nonempty
    cases full with
    | true =>
        have size : entries.size = capacity := (full_iff.mp rfl).2
        refine ⟨?_, ?_, fun _ => Nat.mod_lt _ positive, fun notFull => by cases notFull⟩
        · simpa using size_le
        · simpa using ⟨positive, size⟩
    | false =>
        have notFull : ¬ (0 < capacity ∧ entries.size = capacity) := by
          simpa using full_iff
        have first : head = 0 := head_eq rfl
        have room : (entries.push entry).size ≤ capacity := by
          rw [Array.size_push]
          omega
        refine ⟨room, ?_, fun _ => first ▸ positive, fun _ => first⟩
        simp [positive]

/-- Writing over the oldest entry and moving on drops that entry and adds a new one at the
end. -/
theorem rotate_set {entries : List TraceEntry} {head : Nat} (inside : head < entries.length)
    (entry : TraceEntry) :
    (entries.set head entry).drop ((head + 1) % entries.length) ++
        (entries.set head entry).take ((head + 1) % entries.length) =
      (entries.drop head ++ entries.take head ++ [entry]).drop 1 := by
  have whole : entries.set head entry =
      entries.take head ++ entry :: entries.drop (head + 1) := by
    rw [List.set_eq_take_append_cons_drop, if_pos inside]
  have oldest : entries.drop head = entries[head] :: entries.drop (head + 1) :=
    List.drop_eq_getElem_cons inside
  have before : (entries.take head).length = head := List.length_take_of_le (Nat.le_of_lt inside)
  rw [oldest, List.cons_append, List.cons_append, List.drop_one, List.tail_cons]
  by_cases last : head + 1 = entries.length
  · have empty : entries.drop (head + 1) = [] := List.drop_eq_nil_of_le (Nat.le_of_eq last.symm)
    rw [last, Nat.mod_self, List.drop_zero, List.take_zero, List.append_nil, whole, ← last, empty,
      List.nil_append]
  · have further : (head + 1) % entries.length = head + 1 := Nat.mod_eq_of_lt (by omega)
    have split : entries.set head entry =
        (entries.take head ++ [entry]) ++ entries.drop (head + 1) := by
      rw [whole, List.append_assoc, List.singleton_append]
    have length : (entries.take head ++ [entry]).length = head + 1 := by
      rw [List.length_append, before, List.length_singleton]
    rw [further, split, List.drop_left' length, List.take_left' length, List.append_assoc]

/-- The entries after a push: the new one comes last, and the oldest one is dropped where
there is no room for it. -/
theorem toList_push {ring : TraceRing} (sound : ring.Sound) (entry : TraceEntry) :
    (ring.push entry).toList =
      (ring.toList ++ [entry]).drop (ring.toList.length + 1 - ring.capacity) := by
  rw [length_toList sound]
  obtain ⟨capacity, entries, head, full⟩ := ring
  obtain ⟨size_le, full_iff, head_lt, head_eq⟩ := sound
  simp only at size_le full_iff head_lt head_eq
  unfold push
  dsimp only
  split
  · rename_i empty
    have nothing : entries = #[] := Array.eq_empty_of_size_eq_zero (by omega)
    simp [toList, nothing, empty]
  · rename_i nonempty
    cases full with
    | true =>
        -- The new entry takes the place of the oldest one.
        have size : entries.size = capacity := (full_iff.mp rfl).2
        have inside : head < entries.toList.length := by
          rw [Array.length_toList, size]
          exact head_lt rfl
        have one : entries.size + 1 - capacity = 1 := by omega
        rw [one]
        simp only [toList, oldest, if_true, Array.toList_setIfInBounds]
        rw [← rotate_set inside entry, Array.length_toList, size]
    | false =>
        -- There is room, and the oldest entry stays the first one, also when the ring gets full.
        have first : head = 0 := head_eq rfl
        have notFull : ¬ (0 < capacity ∧ entries.size = capacity) := by
          simpa using full_iff
        have none : entries.size + 1 - capacity = 0 := by omega
        simp [toList, oldest, first, none]

/-- The entry that was added last is the last one, in a ring that can hold any. -/
theorem getLast?_toList_push {ring : TraceRing} (sound : ring.Sound) (room : 0 < ring.capacity)
    (entry : TraceEntry) : (ring.push entry).toList.getLast? = some entry := by
  have size_le := sound.size_le
  have kept : ring.toList.length + 1 - ring.capacity ≤ ring.toList.length := by omega
  rw [toList_push sound, List.drop_append_of_le_length kept, List.getLast?_concat]

end TraceRing

namespace Context

/-- The context keeps a trace of up to `capacity` entries. -/
def Traces (context : Context) (capacity : Nat) : Prop :=
  ∃ ring, context.trace = some ring ∧ ring.Sound ∧ ring.capacity = capacity

variable {context after : Context} {capacity : Nat}

/-- What leaves the trace alone keeps its invariant. -/
theorem Traces.of_sameTrace (traces : context.Traces capacity) (same : context.SameTrace after) :
    after.Traces capacity := by
  obtain ⟨ring, present, sound⟩ := traces
  exact ⟨ring, same.trace.trans present, sound⟩

/-- The entry for an instruction that is about to be executed. -/
def traceEntry (context : Context) (pc : Nat) (instruction : Instruction) (stackDepth : Nat) :
    TraceEntry :=
  ⟨context.traced + 1, pc, instruction.opcode, instruction.operand, stackDepth, context.callDepth⟩

/-- An instruction that is recorded is pushed onto the trace. -/
theorem trace_recordInstruction {ring : TraceRing} (present : context.trace = some ring) (pc : Nat)
    (instruction : Instruction) (stackDepth : Nat) :
    (context.recordInstruction pc instruction stackDepth).trace =
      some (ring.push (context.traceEntry pc instruction stackDepth)) := by
  obtain ⟨memory, settings, statistics, trace, callDepth, traced⟩ := context
  cases present
  rfl

/-- Recording an instruction keeps the invariant. -/
theorem Traces.recordInstruction (traces : context.Traces capacity) (pc : Nat)
    (instruction : Instruction) (stackDepth : Nat) :
    (context.recordInstruction pc instruction stackDepth).Traces capacity := by
  obtain ⟨ring, present, sound, size⟩ := traces
  exact ⟨_, trace_recordInstruction present pc instruction stackDepth, sound.push _,
    (ring.capacity_push _).trans size⟩

/-- A new context with tracing has an empty trace of its capacity. -/
theorem traces_new (env : Environment) (settings : Settings) (enabled : settings.trace.enabled) :
    (Context.new env settings).Traces settings.trace.capacity :=
  ⟨_, if_pos enabled, .empty _, rfl⟩

end Context

/-- A step traces the instruction that it executes, if any. -/
theorem Activation.traces_step {activation moved : Activation} {context after : Context}
    {result : Except Failure Flow} {capacity : Nat} (traces : context.Traces capacity)
    (ran : activation.step context = (result, after, moved)) : after.Traces capacity := by
  obtain ⟨rfl, rfl⟩ | ⟨instruction, next, outcome, place, left, decoded, executed, rfl, rfl⟩ :=
    step_effect ran
  · exact traces
  · have recorded := traces.recordInstruction activation.pc instruction activation.stack.depth
    exact recorded.of_sameTrace (Execute.sameTrace_instruction executed)

/-- Whatever a machine does, it keeps the trace in shape. -/
theorem Context.lasting_traces (capacity : Nat) : Lasting (·.Traces capacity) where
  step := Activation.traces_step
  dispatch traces dispatched := traces.of_sameTrace (sameTrace_dispatch dispatched)
  exit traces base highWater failed := traces.of_sameTrace (sameTrace_exit _ base highWater failed)

end ByteLisp
