import SignalPatch.CommandLine.Arguments

/-!
# Help

The text that explains the command line.  Words that are explained stand in a
column that is as wide as the longest of them.
-/

namespace SignalPatch

namespace CommandLine

namespace Help

/-- A word or an option, and what it is for. -/
structure Entry where
  term : String
  meaning : String

/-- The lines of a section: a title, then a line for each entry. -/
def sectionLines (title : String) (entries : List Entry) : List String :=
  let width := entries.foldl (fun width entry => max width entry.term.length) 0
  "" :: (title ++ ":") :: entries.map (fun entry =>
    "  " ++ entry.term ++ "".pushn ' ' (width - entry.term.length) ++ "  " ++ entry.meaning)

def purpose : Verb → String
  | .check => "Compile a patch and print its syntax tree, disassembly and variables"
  | .render => "Render a patch to a WAV file without a sound card"
  | .run => "Run a patch on the sound card, reloading it whenever the file changes"

def configEntry : Entry :=
  ⟨"-c, --config <CONFIG>", "Engine config (default: ~/.sonovm/config.yaml)"⟩

/-- The option that asks to be told more. -/
def verboseEntry : Entry :=
  ⟨"-v, --verbose...", "Log more (-v debug, -vv trace)"⟩

def helpEntry : Entry :=
  ⟨"-h, --help", "Print help"⟩

/-- The option that names a sound file for the file source. -/
def inputEntry : Entry :=
  ⟨"-i, --input <INPUT>", "WAV file looped by the file source"⟩

/-- The options of a command in the order in which they are explained. -/
def optionEntries : Verb → List Entry
  | .check => [configEntry, verboseEntry, helpEntry]
  | .render =>
      [configEntry,
        ⟨"-o, --output <OUTPUT>", "Output WAV file path"⟩,
        ⟨"-d, --duration <DURATION>", "Duration in seconds [default: 5.0]"⟩,
        verboseEntry,
        ⟨"-s, --source <SOURCE>", "Input source (soundcard renders silence)"⟩,
        inputEntry, helpEntry]
  | .run =>
      [configEntry,
        ⟨"-s, --source <SOURCE>", "Input source"⟩,
        inputEntry, verboseEntry,
        ⟨"-P, --osc-port <OSC_PORT>", "Listen for OSC control on this UDP port"⟩,
        helpEntry]

def usage : Verb → String
  | .check => "Usage: sonovm check [OPTIONS] <PATCH>"
  | .render => "Usage: sonovm render [OPTIONS] --output <OUTPUT> <PATCH>"
  | .run => "Usage: sonovm run [OPTIONS] <PATCH>"

def helpPurpose : String :=
  "Print this message or the help of the given subcommand(s)"

def verbEntries : List Entry :=
  Verb.all.map (fun verb => ⟨verb.word, purpose verb⟩) ++ [⟨"help", helpPurpose⟩]

def lines : Topic → List String
  | .program =>
      ["Per-sample DSP patch language and virtual machine", "",
        "Usage: sonovm [OPTIONS] <COMMAND>"] ++
      sectionLines "Commands" verbEntries ++
      sectionLines "Options" [configEntry, verboseEntry, helpEntry]
  | .command verb =>
      [purpose verb, "", usage verb] ++
      sectionLines "Arguments" [⟨"<PATCH>", "Patch file"⟩] ++
      sectionLines "Options" (optionEntries verb)
  | .help =>
      [helpPurpose, "", "Usage: sonovm help [COMMAND]..."] ++
      sectionLines "Arguments" [⟨"[COMMAND]...", "Print help for the subcommand(s)"⟩]

def text (topic : Topic) : String :=
  (lines topic).foldl (fun text line => text ++ line ++ "\n") ""

end Help

end CommandLine

end SignalPatch
