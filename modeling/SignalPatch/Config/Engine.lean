import SignalPatch.Control.Mapping

/-!
# Engine configuration

The numbers with which a machine is built, the source it starts with, the tuning
of the generators, and the control surface if there is one.
-/

namespace SignalPatch

structure EngineConfig where
  sampleRate : UInt32
  /-- Cells of the operand stack. -/
  stackCapacity : Nat
  /-- Frames held for each telemetry tap. -/
  telemetryCapacity : Nat
  /-- The source selected at the start. -/
  source : SourceKind
  sources : SourceSettings
  /-- The control surface; nothing listens without one. -/
  control : Option ControlSettings

namespace EngineConfig

def standard : EngineConfig where
  sampleRate := 44100
  stackCapacity := 2048
  telemetryCapacity := 32768
  source := .soundcard
  sources := .standard
  control := none

end EngineConfig

end SignalPatch
