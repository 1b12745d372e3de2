import SignalPatch.Program.Ports
import SignalPatch.Source.Selection

/-!
# Control mappings

A control surface sends messages: an address and a list of arguments.  A list of
mappings says which address sets which slider or selects the source.  Only the
first mapping with the address of a message counts.
-/

namespace SignalPatch

/-- An argument of a control message. -/
inductive Argument where
  | int (value : Int32)
  | long (value : Int64)
  | float (value : Sample)
  | double (value : Float)
  | string (text : String)
  | blob (bytes : ByteArray)
  | character (value : Char)
  | time (seconds fraction : UInt32)
  | color (red green blue alpha : UInt8)
  | midi (port status first second : UInt8)
  | bool (value : Bool)
  | nil
  | infinitum
  | array (arguments : List Argument)

/-- A message of a control surface. -/
structure ControlMessage where
  address : String
  arguments : List Argument

/-- What a mapped message does. -/
inductive ControlTarget where
  /-- Set a slider to a number; sliders count from zero. -/
  | slider (index : Nat)
  /-- Select a source by its name or number. -/
  | source
deriving DecidableEq

/-- A mapping from an address to a target. -/
structure ControlMapping where
  address : String
  target : ControlTarget
deriving DecidableEq

/-- The settings of the control surface. -/
structure ControlSettings where
  port : UInt16
  mappings : List ControlMapping
deriving DecidableEq

/-- A change that a message asks for. -/
inductive ControlEvent where
  | setSlider (index : Nat) (value : Sample)
  | setSource (kind : SourceKind)
deriving DecidableEq

namespace ControlSettings

/-- One address for each slider and one for the source. -/
def standardMappings : List ControlMapping :=
  (List.range Port.sliderCount).map
      (fun index => ⟨"/slider/" ++ (index + 1).repr, .slider index⟩) ++
    [⟨"/source", .source⟩]

def standard : ControlSettings :=
  ⟨9000, standardMappings⟩

end ControlSettings

namespace ControlMessage

/-- The first argument as a sample, if it is a number of a kind that sliders take. -/
def sample? (message : ControlMessage) : Option Sample :=
  match message.arguments with
  | .float value :: _ => some value
  | .double value :: _ => some (.ofDouble value)
  | .int value :: _ => some (.ofNumber value.toFloat32)
  | _ => none

/-- The first argument as the name or the number of a source. -/
def source? (message : ControlMessage) : Option SourceKind :=
  match message.arguments with
  | .string name :: _ => SourceKind.ofName? name
  | .int number :: _ =>
      if number < 0 then none else SourceKind.all[number.toInt.toNat]?
  | _ => none

def event? (message : ControlMessage) (mappings : List ControlMapping) :
    Option ControlEvent :=
  match mappings.find? (fun mapping => mapping.address == message.address) with
  | none => none
  | some ⟨_, .slider index⟩ =>
      if index < Port.sliderCount then message.sample?.map (.setSlider index) else none
  | some ⟨_, .source⟩ => message.source?.map .setSource

end ControlMessage

end SignalPatch
