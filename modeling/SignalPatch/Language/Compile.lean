import SignalPatch.Language.Assembly
import SignalPatch.Language.Outline
import SignalPatch.Language.Parser

/-!
# From text to patch

Compiling a text reads its tokens, then its statements, then assembles their
code.  The first stage that finds a fault refuses the text.
-/

namespace SignalPatch

def parse (text : String) : Except Fault (List Statement) :=
  match TokenStream.ofText text with
  | .error fault => .error fault
  | .ok stream =>
      match stream.statements with
      | .error failure => .error failure.fault
      | .ok statements => .ok statements

def compile (text : String) : Except Fault Patch :=
  match parse text with
  | .error fault => .error fault
  | .ok statements => Patch.ofStatements statements

/-- A patch together with the outline of its text. -/
structure Inspection where
  outline : String
  patch : Patch

def inspect (text : String) : Except Fault Inspection :=
  match parse text with
  | .error fault => .error fault
  | .ok statements =>
      match Patch.ofStatements statements with
      | .error fault => .error fault
      | .ok patch => .ok ⟨outline statements, patch⟩

end SignalPatch
