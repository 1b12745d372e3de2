import SignalPatch.Document.Building
import SignalPatch.Document.Scan

/-!
# Documents of texts

The tokens of a text are one document at most.  Directives in front of it say
what the handles of its tags stand for.
-/

namespace SignalPatch

namespace Document

/-- What handles stand for unless directives say something else. -/
def standardHandles : List (TagText × TagText) :=
  [(primaryHandle, primaryHandle),
    (bytesOf ['!', '!'], bytesOf "tag:yaml.org,2002:".toList)]

/-- What the directives in front of a document say about handles, and what is behind its start. -/
def readDirectives (handles : List (TagText × TagText)) (versioned : Bool) :
    List Token → Option (List (TagText × TagText) × List Token)
  | .version major minor :: tokens =>
      if versioned || major != 1 || (minor != 1 && minor != 2) then none
      else readDirectives handles true tokens
  | .handle name meaning :: tokens =>
      if (handles.lookup name).isSome then none
      else readDirectives ((name, meaning) :: handles) versioned tokens
  | .documentStart :: tokens => some (handles, tokens)
  | _ => none

def Token.isBetween : Token → Bool
  | .version .. | .handle .. | .documentStart | .documentEnd => true
  | _ => false

/-- The document of the given tokens, behind which nothing but its end may stand. -/
def build? (handles : List (TagText × TagText)) (tokens : List Token) : Option Document :=
  match Building.run (16 * (tokens.length + 1)) 0
    (.read true false, ⟨tokens, [], .empty, handles ++ standardHandles⟩) with
  | some (document, behind) =>
      if behind.all (fun token => token == .documentEnd) then some document else none
  | none => none

/-- The document of a list of tokens, which is empty if there are none. -/
def ofTokens? (tokens : List Token) : Option Document :=
  match tokens with
  | [] => some .empty
  | first :: _ =>
      if first.isBetween && first != .documentEnd then
        match readDirectives [] false tokens with
        | none => none
        | some (handles, content) =>
            if content.head?.all Token.isBetween then
              if content.all (fun token => token == .documentEnd) then
                some .empty
              else none
            else build? handles content
      else build? [] tokens

def ofText? (text : String) : Option Document :=
  (tokens? text.toList).bind ofTokens?

end Document

end SignalPatch
