import ByteLisp.Json.Decode
import ByteLisp.Machine.Settings
import ByteLisp.Machine.Trace
import ByteLisp.Parameters

/-!
# Machines in JSON

The settings of a machine, the calling conventions and traces as JSON values.
-/

namespace ByteLisp

namespace Convention

/-- The JSON form of a convention. -/
def toJson : Convention → Json
  | dynamic => .ofText "Dynamic"
  | lexical => .ofText "Lexical"

/-- The convention of a JSON value. -/
def ofJson? (value : Json) : Option Convention :=
  match value.bareChoice? with
  | some "Dynamic" => some dynamic
  | some "Lexical" => some lexical
  | _ => none

end Convention

namespace TraceSettings

/-- The JSON form of the settings of a trace. -/
def toJson (settings : TraceSettings) : Json :=
  .ofMembers [("enabled", .bool settings.enabled), ("ring_buffer_size", .ofNat settings.capacity)]

/-- The settings of a trace of a JSON value. -/
def ofJson? (value : Json) : Option TraceSettings :=
  match value.fields? ["enabled", "ring_buffer_size"] with
  | some [some enabled, some capacity] => do
    return ⟨← enabled.bool?, ← capacity.natBelow? UInt64.size⟩
  | _ => none

end TraceSettings

namespace Settings

/-- The JSON form of settings. -/
def toJson (settings : Settings) : Json :=
  .ofMembers [("max_call_depth", .ofNat settings.maxCallDepth),
    ("collect_stats", .bool settings.collectStatistics), ("trace", settings.trace.toJson)]

/-- The content of a field, or the given value where the field is missing. -/
def fieldOr {α : Type} (field : Option Json) (read : Json → Option α) (missing : α) : Option α :=
  match field with
  | some value => read value
  | none => some missing

/-- The settings with the fields of a record; a missing field has its usual
value. -/
def ofJson? (value : Json) : Option Settings :=
  let usual : Settings := {}
  match value.fields? ["max_call_depth", "collect_stats", "trace"] with
  | some [depth, statistics, trace] => do
    return ⟨← fieldOr depth (Json.natBelow? UInt64.size) usual.maxCallDepth,
      ← fieldOr statistics Json.bool? usual.collectStatistics,
      ← fieldOr trace TraceSettings.ofJson? usual.trace⟩
  | _ => none

end Settings

namespace TraceEntry

/-- The JSON form of an entry of a trace. -/
def toJson (entry : TraceEntry) : Json :=
  .ofMembers [("instruction_number", .ofNat entry.number), ("pc", .ofNat entry.pc),
    ("opcode", .ofText entry.opcode.mnemonic), ("operand", .ofNat entry.operand.toNat),
    ("stack_depth", .ofNat entry.stackDepth), ("call_depth", .ofNat entry.callDepth)]

end TraceEntry

namespace TraceRing

/-- The entries, the oldest first. -/
def toJson (ring : TraceRing) : Json :=
  .array (ring.toList.map TraceEntry.toJson)

end TraceRing

end ByteLisp
