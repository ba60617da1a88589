/-!
# Settings of a machine
-/

namespace ByteLisp

/-- Whether a machine keeps a trace, and of how many instructions. -/
structure TraceSettings where
  enabled : Bool := false
  capacity : Nat := 100
deriving DecidableEq, Repr

/-- The settings of a machine. -/
structure Settings where
  /-- The number of activations that may be live at once. -/
  maxCallDepth : Nat := 1600
  /-- Whether statistics are collected. -/
  collectStatistics : Bool := true
  trace : TraceSettings := {}
deriving DecidableEq, Repr

namespace Settings

/-- Settings with a trace of the last instructions. -/
def traced (capacity : Nat) : Settings where
  trace := ⟨true, capacity⟩

end Settings

end ByteLisp
