import SignalPatch.CommandLine.Option

/-!
# Arguments

The arguments of the command line are read one by one.  An option with a value
takes it from the same argument or from the next one, which must not look like
an option.  Two dashes alone end the options.

A value in an argument of its own is looked at only when the next option or the
next value arrives, or at the end; a value before the command only behind all
that belongs to the command.  So a wish for help that comes first is granted.
-/

namespace SignalPatch

namespace CommandLine

/-- A command with what it needs. -/
inductive Command where
  | check (patch : String)
  | render (patch output : String) (duration : Sample) (source : Option SourceKind)
      (input : Option String)
  | run (patch : String) (source : Option SourceKind) (input : Option String)
      (port : Option UInt16)

def Command.reads : Command → List String
  | .check patch => [patch]
  | .render patch _ _ _ input => patch :: input.toList
  | .run patch _ input _ => patch :: input.toList

/-- What help can be about. -/
inductive Topic where
  | program
  | command (verb : Verb)
  | help
deriving DecidableEq

/-- What the arguments ask for. -/
inductive Request where
  | help (topic : Topic)
  | perform (config : Option String) (command : Command)

/-- Where the reading of arguments stands. -/
inductive Phase where
  | beforeVerb
  | behind (verb : Verb)
  | topics (topic : Topic)

/-- A value that is not yet looked at. -/
inductive Pending where
  | nothing
  | awaiting (option : ValueOption)
  | option (option : ValueOption) (text : String)
  | patch (text : String)

/-- What is given before the command, or behind it. -/
structure Given where
  values : OptionValues
  pending : Pending

namespace Given

def empty : Given :=
  ⟨.empty, .nothing⟩

/-- All values, if those that were pending make sense. -/
def resolve (given : Given) : Option OptionValues :=
  match given.pending with
  | .nothing => some given.values
  | .awaiting _ => none
  | .option option text => given.values.give text option
  | .patch text => given.values.givePatch text

end Given

/-- What is known after some of the arguments. -/
structure Progress where
  phase : Phase
  outer : Given
  inner : Given
  plainOnly : Bool

/-- Why reading stops: help is asked for, or the arguments make no sense. -/
inductive Stop where
  | help (topic : Topic)
  | misuse
deriving DecidableEq

namespace Progress

def start : Progress :=
  ⟨.beforeVerb, .empty, .empty, false⟩

def topic (progress : Progress) : Topic :=
  match progress.phase with
  | .beforeVerb => .program
  | .behind verb => .command verb
  | .topics topic => topic

def options (progress : Progress) : List ValueOption :=
  match progress.phase with
  | .behind verb => verb.options
  | _ => [.config]

def given (progress : Progress) : Given :=
  match progress.phase with
  | .behind _ => progress.inner
  | _ => progress.outer

def withGiven (progress : Progress) (given : Given) : Progress :=
  match progress.phase with
  | .behind _ => { progress with inner := given }
  | _ => { progress with outer := given }

/-- Look at the pending value, change the values, and leave another one pending. -/
def advance (progress : Progress) (change : OptionValues → Option OptionValues)
    (pending : Pending) : Except Stop Progress :=
  match progress.given.resolve.bind change with
  | some values => .ok (progress.withGiven ⟨values, pending⟩)
  | none => .error .misuse

def await (progress : Progress) (pending : Pending) : Except Stop Progress :=
  progress.advance some pending

def give (progress : Progress) (option : ValueOption) (text : String) : Except Stop Progress :=
  progress.advance (fun values => values.give text option) .nothing

/-- Count a wish to be told more. -/
def tellMore (progress : Progress) : Except Stop Progress :=
  progress.advance (fun values => some { values with verbosity := values.verbosity + 1 }) .nothing

def askHelp (progress : Progress) : Except Stop Progress :=
  match progress.given.resolve with
  | some _ => .error (.help progress.topic)
  | none => .error .misuse

def letters (progress : Progress) : List Char → Except Stop Progress
  | [] => .ok progress
  | 'h' :: _ => progress.askHelp
  | 'v' :: rest =>
      match progress.tellMore with
      | .ok progress => progress.letters rest
      | .error stop => .error stop
  | letter :: rest =>
      match progress.options.find? (fun option => option.letter == letter), rest with
      | none, _ => .error .misuse
      | some option, [] => progress.await (.awaiting option)
      | some option, '=' :: value => progress.give option (String.ofList value)
      | some option, value => progress.give option (String.ofList value)

/-- The option that the word behind two dashes stands for. -/
def word (progress : Progress) (text : List Char) : Except Stop Progress :=
  let name := String.ofList (text.takeWhile (fun character => character != '='))
  let value := (text.dropWhile (fun character => character != '=')).tail?
  match progress.options.find? (fun option => option.word == name), value with
  | some option, none => progress.await (.awaiting option)
  | some option, some value => progress.give option (String.ofList value)
  | none, some _ => .error .misuse
  | none, none =>
      if name == "help" then progress.askHelp
      else if name == "verbose" then progress.tellMore
      else .error .misuse

/-- The topic that a word stands for, if it continues what help is asked about. -/
def narrow (topic : Topic) (text : String) : Except Stop Topic :=
  match topic, Verb.ofWord? text with
  | .program, some verb => .ok (.command verb)
  | .program, none => if text == "help" then .ok .help else .error .misuse
  | _, _ => .error .misuse

def plain (progress : Progress) (text : String) : Except Stop Progress :=
  match progress.phase with
  | .behind _ => progress.await (.patch text)
  | .topics topic =>
      match narrow topic text with
      | .ok topic => .ok { progress with phase := .topics topic }
      | .error stop => .error stop
  | .beforeVerb =>
      if progress.plainOnly then .error .misuse
      else if text == "help" then .ok { progress with phase := .topics .program }
      else
        match Verb.ofWord? text with
        | some verb => .ok { progress with phase := .behind verb }
        | none => .error .misuse

/-- Whether an argument looks like an option. -/
def isDashed (text : String) : Bool :=
  text.startsWith "-" && text != "-"

def takesOptions (progress : Progress) : Bool :=
  match progress.phase with
  | .topics _ => false
  | _ => !progress.plainOnly

/-- Read an argument where options are read. -/
def mixed (progress : Progress) (text : String) : Except Stop Progress :=
  if isDashed text then
    match text.toList with
    | '-' :: '-' :: [] => .ok { progress with plainOnly := true }
    | '-' :: '-' :: rest => progress.word rest
    | _ => progress.letters text.toList.tail
  else
    match progress.given with
    | ⟨values, .awaiting option⟩ => .ok (progress.withGiven ⟨values, .option option text⟩)
    | _ => progress.plain text

def step (progress : Progress) (text : String) : Except Stop Progress :=
  if progress.takesOptions then progress.mixed text else progress.plain text

/-- What a command needs, from the options behind it. -/
def command? (values : OptionValues) (verb : Verb) : Option Command := do
  let patch ← values.patch
  match verb with
  | .check => return .check patch
  | .render =>
      return .render patch (← values.output) (values.duration.getD 5) values.source values.input
  | .run => return .run patch values.source values.input values.port

/-- What a command is to do, from what is given before it and behind it. -/
def request? (outer inner : Given) (verb : Verb) : Option Request := do
  let inner ← inner.resolve
  let command ← command? inner verb
  let outer ← outer.resolve
  return .perform (inner.config <|> outer.config) command

def finish (progress : Progress) : Except Stop Request :=
  match progress.phase with
  | .beforeVerb => .error .misuse
  | .topics topic => .ok (.help topic)
  | .behind verb =>
      match request? progress.outer progress.inner verb with
      | some request => .ok request
      | none => .error .misuse

end Progress

/-- The files that a request reads, apart from the configuration of the user. -/
def Request.reads : Request → List String
  | .help _ => []
  | .perform config command => config.toList ++ command.reads

/-- What a list of arguments asks for, or nothing if it makes no sense. -/
def Request.ofArguments? (arguments : List String) : Option Request :=
  match arguments.foldlM Progress.step Progress.start >>= Progress.finish with
  | .ok request => some request
  | .error (.help topic) => some (.help topic)
  | .error .misuse => none

end CommandLine

end SignalPatch
