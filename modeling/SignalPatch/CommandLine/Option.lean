import SignalPatch.Decimal.Numeral
import SignalPatch.Source.Selection

/-!
# Options of the command line

There are three commands.  Options with a value are given at most once, and
every command knows its own; the configuration may be named before the command
or behind it.
-/

namespace SignalPatch

namespace CommandLine

/-- What the program is asked to do. -/
inductive Verb where
  /-- Show how a patch is understood. -/
  | check
  /-- Write what a patch sounds like to a file. -/
  | render
  /-- Play a patch on the sound card. -/
  | run
deriving DecidableEq

inductive ValueOption where
  | config
  | output
  | duration
  | source
  | input
  | port
deriving DecidableEq

namespace Verb

def all : List Verb :=
  [check, render, run]

def word : Verb → String
  | check => "check"
  | render => "render"
  | run => "run"

def ofWord? (word : String) : Option Verb :=
  all.find? (fun verb => verb.word == word)

def options : Verb → List ValueOption
  | check => [.config]
  | render => [.config, .output, .duration, .source, .input]
  | run => [.config, .source, .input, .port]

end Verb

namespace ValueOption

def letter : ValueOption → Char
  | config => 'c'
  | output => 'o'
  | duration => 'd'
  | source => 's'
  | input => 'i'
  | port => 'P'

def word : ValueOption → String
  | config => "config"
  | output => "output"
  | duration => "duration"
  | source => "source"
  | input => "input"
  | port => "osc-port"

end ValueOption

/-- The values given so far, and how often more was to be told. -/
structure OptionValues where
  config : Option String
  verbosity : Nat
  patch : Option String
  output : Option String
  duration : Option Sample
  source : Option SourceKind
  input : Option String
  port : Option UInt16

namespace OptionValues

def empty : OptionValues :=
  ⟨none, 0, none, none, none, none, none, none⟩

/-- A path, which must not be empty. -/
def path? (text : String) : Option String :=
  if text.isEmpty then none else some text

/-- A number without a sign, or a word for an infinite or undefined one. -/
def unsignedSample? (text : List Char) : Option Sample :=
  match String.ofList (text.map Char.toLower) with
  | "inf" | "infinity" => some Sample.infinity
  | "nan" => some Sample.nan
  | _ => (Numeral.ofWhole? text).map Decimal.toSample

def sample? (text : String) : Option Sample :=
  match text.toList with
  | '-' :: rest => (unsignedSample? rest).map (fun value => -value)
  | '+' :: rest => unsignedSample? rest
  | rest => unsignedSample? rest

/-- The port that digits write, of which there is one at least. -/
def portOfDigits? (digits : List Char) : Option UInt16 :=
  if !digits.isEmpty && digits.all Char.isDigit && Decimal.digitsValue digits < UInt16.size then
    some (Decimal.digitsValue digits).toUInt16
  else none

/-- The number of a port; behind a minus sign it can only be zero. -/
def port? (text : String) : Option UInt16 :=
  match text.toList with
  | '+' :: digits => portOfDigits? digits
  | '-' :: digits => (portOfDigits? digits).filter (fun port => port = 0)
  | digits => portOfDigits? digits

/-- Store a value that is not yet given; no value is stored when there is none. -/
def once {Value : Type} (given value : Option Value) : Option (Option Value) :=
  match given, value with
  | none, some value => some (some value)
  | _, _ => none

/-- Give an option a value, unless it has one or the value has no meaning for it. -/
def give (values : OptionValues) (text : String) : ValueOption → Option OptionValues
  | .config => (once values.config (path? text)).map (fun config => { values with config })
  | .output => (once values.output (path? text)).map (fun output => { values with output })
  | .duration =>
      (once values.duration (sample? text)).map (fun duration => { values with duration })
  | .source =>
      (once values.source (SourceKind.ofName? text)).map (fun source => { values with source })
  | .input => (once values.input (path? text)).map (fun input => { values with input })
  | .port => (once values.port (port? text)).map (fun port => { values with port })

def givePatch (values : OptionValues) (text : String) : Option OptionValues :=
  (once values.patch (path? text)).map (fun patch => { values with patch })

end OptionValues

end CommandLine

end SignalPatch
