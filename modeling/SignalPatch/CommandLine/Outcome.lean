import SignalPatch.CommandLine.Arguments
import SignalPatch.CommandLine.Help
import SignalPatch.Config.Decoding
import SignalPatch.Files.PatchFile
import SignalPatch.Language.Outline
import SignalPatch.Machine.Capacity
import SignalPatch.Machine.Virtual
import SignalPatch.Render
import SignalPatch.SoundFile.Reading
import SignalPatch.SoundFile.Writing

/-!
# Commands

A command looks at files, prints, and may write one file at its end.  So what it
does is a function of what it finds in the files that it names, and of whether
the sound card opens.
-/

namespace SignalPatch

namespace CommandLine

/-- How a command ended. -/
inductive ExitStatus where
  | success
  | failure
  | misuse
  | aborted
  /-- The system did not let the command go on. -/
  | killed
deriving DecidableEq

/-- The number that tells the system how a command ended, if the command came to tell it. -/
def ExitStatus.code? : ExitStatus → Option UInt32
  | success => some 0
  | failure => some 1
  | misuse => some 2
  | aborted => some 101
  | killed => none

/-- What a command leaves behind. -/
structure Outcome where
  status : ExitStatus
  output : String
  /-- What it says about a failure. -/
  complaint : String
  /-- The file that it writes: its path and its bytes. -/
  file : Option (String × List UInt8)

namespace Outcome

def printing (output : String) : Outcome :=
  ⟨.success, output, "", none⟩

def writing (path : String) (bytes : List UInt8) : Outcome :=
  ⟨.success, "", "", some (path, bytes)⟩

def failing (reason : String) : Outcome :=
  ⟨.failure, "", "Error: " ++ reason, none⟩

/-- A command that breaks off, with the file that it leaves. -/
def aborting (reason : String) (file : Option (String × List UInt8)) : Outcome :=
  ⟨.aborted, "", "Error: " ++ reason, file⟩

/-- The end of a command whose request for memory is not granted. -/
def ofGrant? : Grant → Option Outcome
  | .granted => none
  | .refused => some ⟨.killed, "", "Error: out of memory", none⟩
  | .impossible => some (aborting "too much memory is needed" none)

def withoutFile (outcome : Outcome) (error : FileError) : Outcome :=
  { failing error.message with output := outcome.output }

end Outcome

def standardConfigPath (home : String) : String :=
  home ++ "/.sonovm/config.yaml"

/-- What a command finds around it. -/
structure Surroundings where
  read : String → FileContent
  /-- The directory of the user, if there is one. -/
  home : Option String
  /-- How opening the sound card goes. -/
  soundCard : Except TransportError Unit

namespace Surroundings

/--
The configuration.  One that is named must be usable; otherwise the one of the
user counts if it is usable.
-/
def config (surroundings : Surroundings) (named : Option String) :
    Except ConfigError EngineConfig :=
  match named with
  | some path => EngineConfig.ofFile (surroundings.read path)
  | none =>
      match surroundings.home with
      | none => .ok .standard
      | some home =>
          match EngineConfig.ofFile (surroundings.read (standardConfigPath home)) with
          | .ok config => .ok config
          | .error _ => .ok .standard

/-- The frames of a sound file, if one is named. -/
def inputFrames (surroundings : Surroundings) (input : Option String) :
    Except SoundFileError (Option (Array Frame)) :=
  match input with
  | none => .ok none
  | some path => (readSoundFile (surroundings.read path)).map some

def variableLine (slot : Nat) (name : String) : String :=
  "".pushn ' ' (4 - slot.repr.length) ++ slot.repr ++ " " ++ name ++ "\n"

def inspectionText (inspection : Inspection) : String :=
  let program := inspection.patch.program
  let table := inspection.patch.table
  "-- syntax tree\n" ++ inspection.outline ++
    "-- program (" ++ program.instructions.length.repr ++ " instructions)\n" ++
    program.disassemble table ++
    "-- variables\n" ++ String.join (table.names.mapIdx variableLine)

def performCheck (surroundings : Surroundings) (patch : String) : Outcome :=
  match (surroundings.read patch).text with
  | .error error => .failing error.message
  | .ok text =>
      match inspect text with
      | .error fault => .failing fault.text
      | .ok inspection => .printing (inspectionText inspection)

/-- The number of frames in so many seconds; a negative or undefined time has none. -/
def framesIn (duration : Sample) (sampleRate : UInt32) : Nat :=
  (Sample.peak duration 0 * .ofNumber sampleRate.toFloat32).number.toUInt64.toNat

/-- The source of a rendering: the one asked for, else the file if there is one. -/
def renderSource (config : EngineConfig) (source : Option SourceKind)
    (file : Option (Array Frame)) : SourceKind :=
  match source, file with
  | some kind, _ => kind
  | none, some _ => .file
  | none, none => config.source

/-- Write what a patch sounds like to a file, on a machine with so many bytes of memory. -/
def performRender (surroundings : Surroundings) (memory : Nat) (config : EngineConfig)
    (patch output : String) (duration : Sample) (source : Option SourceKind)
    (input : Option String) : Outcome :=
  match (surroundings.read patch).patch, surroundings.inputFrames input with
  | .error error, _ => .failing error.message
  | .ok _, .error error => .failing error.message
  | .ok patch, .ok file =>
      let frames := framesIn duration config.sampleRate
      let allotment := config.allotment.andThen (Rendering.allotment frames)
      match Outcome.ofGrant? (allotment.grant memory) with
      | some outcome => outcome
      | none =>
          let config := { config with source := renderSource config source file }
          match tryRender config patch file frames with
          | .error error => .failing error.message
          | .ok rendering =>
              match SoundFile.ofSamples? config.sampleRate rendering.samples with
              | some bytes => .writing output bytes
              | none =>
                  .aborting "a sound file needs a sample rate"
                    (some (output, SoundFile.unfinished))

/-- Play a patch on the sound card; this ends when the sound card does not open. -/
def performRun (surroundings : Surroundings) (memory : Nat) (config : EngineConfig)
    (patch : String) (source : Option SourceKind) (input : Option String) : Outcome :=
  match (surroundings.read patch).patch, surroundings.inputFrames input with
  | .error error, _ => .failing error.message
  | .ok _, .error error => .failing error.message
  | .ok patch, .ok file =>
      match Outcome.ofGrant? (config.allotment.grant memory) with
      | some outcome => outcome
      | none =>
          let config := { config with source := source.getD config.source }
          match (loadedMachine config patch file).start surroundings.soundCard with
          | (.error error, _) => .failing error.message
          | (.ok (), _) => .printing ""

def perform (surroundings : Surroundings) (memory : Nat) (config : EngineConfig) :
    Command → Outcome
  | .check patch => surroundings.performCheck patch
  | .render patch output duration source input =>
      surroundings.performRender memory config patch output duration source input
  | .run patch source input _ => surroundings.performRun memory config patch source input

end Surroundings

/-- The memory of a machine of which nothing else is known: thirty-two gigabytes. -/
def usualMemory : Nat :=
  0x800000000

def outcome (surroundings : Surroundings) (arguments : List String)
    (memory : Nat := usualMemory) : Outcome :=
  match Request.ofArguments? arguments with
  | none => ⟨.misuse, "", Help.text .program, none⟩
  | some (.help topic) => .printing (Help.text topic)
  | some (.perform named command) =>
      match surroundings.config named with
      | .error error => .failing error.message
      | .ok config => surroundings.perform memory config command

end CommandLine

end SignalPatch
