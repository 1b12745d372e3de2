import SignalPatch.Files.Content
import SignalPatch.Language.Compile

/-!
# Patch files

A patch file is compiled again whenever it was modified since the last attempt.
An attempt looks at the time of modification before it reads the content, so a
change in between is seen by the next poll.
-/

namespace SignalPatch

/-- Why an attempt to load a patch file failed. -/
inductive ReloadError where
  | file (error : FileError)
  | compile (fault : Fault)

def ReloadError.message : ReloadError → String
  | file error => "cannot read patch: " ++ error.message
  | compile fault => fault.text

def FileContent.patch (content : FileContent) : Except ReloadError Patch :=
  match content.text with
  | .error error => .error (.file error)
  | .ok text =>
      match compile text with
      | .error fault => .error (.compile fault)
      | .ok patch => .ok patch

/-- How a file is looked at, in a world that may change behind each look. -/
structure FileAccess (World : Type) where
  modified : StateM World (Option Int)
  content : StateM World FileContent

/-- Looks that find given times of modification, one after the other, and always one content. -/
def FileAccess.answering (content : FileContent) : FileAccess (List (Option Int)) where
  modified := modifyGet fun times => (times.head?.join, times.tail)
  content := pure content

/-- The time of modification that the last attempt saw, if the file was there. -/
structure PatchFile where
  lastModified : Option Int
deriving DecidableEq

namespace PatchFile

def unread : PatchFile :=
  ⟨none⟩

/-- Look at the time of modification, then read the content, and compile it. -/
def loadThrough {World : Type} (access : FileAccess World) :
    StateM World (Except ReloadError Patch × PatchFile) := do
  let modified ← access.modified
  let content ← access.content
  return (content.patch, ⟨modified⟩)

def isStale (patchFile : PatchFile) (modified : Int) : Bool :=
  match patchFile.lastModified with
  | none => true
  | some last => last < modified

/--
Load the file if it is there and was modified since the last attempt.  The time
of modification is looked at once to decide and once more to load.
-/
def pollThrough {World : Type} (patchFile : PatchFile) (access : FileAccess World) :
    StateM World (Option (Except ReloadError Patch) × PatchFile) := do
  match ← access.modified with
  | none => return (none, patchFile)
  | some time =>
      if patchFile.isStale time then
        let (result, patchFile) ← loadThrough access
        return (some result, patchFile)
      else
        return (none, patchFile)

/-- Load the file, where the looks find this time of modification and this content. -/
def load (modified : Option Int) (content : FileContent) :
    Except ReloadError Patch × PatchFile :=
  ((loadThrough (.answering content)).run [modified]).1

/-- Poll the file, where the looks find these times of modification and this content. -/
def poll (patchFile : PatchFile) (current modified : Option Int) (content : FileContent) :
    Option (Except ReloadError Patch) × PatchFile :=
  ((patchFile.pollThrough (.answering content)).run [current, modified]).1

end PatchFile

end SignalPatch
