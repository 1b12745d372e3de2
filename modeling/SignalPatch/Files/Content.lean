/-!
# File contents

A file that is looked up has bytes or a reason why it has none.  Some files are
texts, and then their bytes must be well-formed UTF-8.
-/

namespace SignalPatch

/-- Why a file cannot be read. -/
inductive FileError where
  | notFound
  | notText
  /-- Any other refusal, in the words of the system. -/
  | refused (detail : String)
deriving DecidableEq

def FileError.message : FileError → String
  | notFound => "No such file or directory (os error 2)"
  | notText => "stream did not contain valid UTF-8"
  | refused detail => detail

abbrev FileContent :=
  Except FileError ByteArray

namespace FileContent

def text (content : FileContent) : Except FileError String :=
  match content with
  | .error error => .error error
  | .ok bytes =>
      match String.fromUTF8? bytes with
      | some text => .ok text
      | none => .error .notText

end FileContent

end SignalPatch
