import SignalPatch.Config.Engine
import SignalPatch.Config.Value
import SignalPatch.Document.Tree
import SignalPatch.Files.Content

/-!
# Decoding configurations

A configuration document is a mapping from names to values.  Unknown names are
passed over, a name that is known must not be repeated, and what is not named
has its standard value.
-/

namespace SignalPatch

def SourceKind.read (value : ConfigValue) : Reading SourceKind := do
  SourceKind.ofName? (← (← value.readChoice).name?)

def ControlTarget.read (value : ConfigValue) : Reading ControlTarget := do
  match ← value.readChoice with
  | .tagged "Control" index => .slider <$> index.readNaturalIn true UInt64.size
  | choice => if choice.name? = some "Source" then return .source else failure

def SourceSettings.read (value : ConfigValue) : Reading SourceSettings := do
  let entries ← value.readSection
  let standard := SourceSettings.standard
  let sineFrequency ← entries.readFieldOr "sine_frequency" standard.sineFrequency
    ConfigValue.readSample
  let sineAmplitude ← entries.readFieldOr "sine_amplitude" standard.sineAmplitude
    ConfigValue.readSample
  let impulseInterval ← entries.readFieldOr "impulse_interval" standard.impulseInterval
    ConfigValue.readSample
  let noiseSeed ← entries.readFieldOr "noise_seed" standard.noiseSeed.toNat
    (ConfigValue.readNatural UInt64.size)
  return ⟨sineFrequency, sineAmplitude, impulseInterval, noiseSeed.toUInt64⟩

/-- A control mapping, both parts of which must be given. -/
def ControlMapping.read (value : ConfigValue) : Reading ControlMapping := do
  let entries ← value.readSection
  let address ← entries.readRequired "address_pattern" ConfigValue.readText
  let target ← entries.readRequired "target" ControlTarget.read
  return ⟨String.ofList address, target⟩

def ControlMapping.readAll (value : ConfigValue) : Reading (List ControlMapping) := do
  (← value.readItems).mapM ControlMapping.read

def ControlSettings.read (value : ConfigValue) : Reading ControlSettings := do
  let entries ← value.readSection
  let standard := ControlSettings.standard
  let port ← entries.readFieldOr "listen_port" standard.port.toNat
    (ConfigValue.readNatural UInt16.size)
  let mappings ← entries.readFieldOr "mappings" standard.mappings ControlMapping.readAll
  return ⟨port.toUInt16, mappings⟩

namespace EngineConfig

def read (value : ConfigValue) : Reading EngineConfig := do
  let entries ← value.readSection
  let sampleRate ← entries.readFieldOr "sample_rate" standard.sampleRate.toNat
    (ConfigValue.readNatural UInt32.size)
  let stackCapacity ← entries.readFieldOr "stack_capacity" standard.stackCapacity
    (ConfigValue.readNatural UInt64.size)
  let telemetryCapacity ← entries.readFieldOr "telemetry_capacity" standard.telemetryCapacity
    (ConfigValue.readNatural UInt64.size)
  let source ← entries.readFieldOr "source" standard.source SourceKind.read
  let sources ← entries.readFieldOr "sources" standard.sources SourceSettings.read
  let control ← entries.readFieldOr "osc" standard.control
    (ConfigValue.readOptional ControlSettings.read)
  return ⟨sampleRate.toUInt32, stackCapacity, telemetryCapacity, source, sources, control⟩

end EngineConfig

/-- Why a file gives no configuration. -/
inductive ConfigError where
  | file (error : FileError)
  | invalid
deriving DecidableEq

def ConfigError.message : ConfigError → String
  | file error => "cannot read config: " ++ error.message
  | invalid => "invalid config"

def isWhiteSpace (character : Char) : Bool :=
  let code := character.toNat
  (0x9 ≤ code && code ≤ 0xD) || code == 0x20 || code == 0x85 || code == 0xA0 || code == 0x1680 ||
    (0x2000 ≤ code && code ≤ 0x200A) || code == 0x2028 || code == 0x2029 || code == 0x202F ||
    code == 0x205F || code == 0x3000

namespace EngineConfig

/-- The configuration that a text describes; white space alone describes the standard one. -/
def ofText (text : String) : Except ConfigError EngineConfig :=
  if text.toList.all isWhiteSpace then .ok standard
  else
    match (Document.ofText? text).bind (fun document => document.read? read) with
    | some config => .ok config
    | none => .error .invalid

def ofFile (content : FileContent) : Except ConfigError EngineConfig :=
  match content.text with
  | .error error => .error (.file error)
  | .ok text => ofText text

end EngineConfig

end SignalPatch
