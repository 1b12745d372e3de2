import SignalPatch.Document.Name
import SignalPatch.Document.Node

/-!
# Documents that are begun

What is begun while a document is put together is kept on a stack, so that nodes
may be nested to any depth.  An anchor and a tag may stand in front of a node.
-/

namespace SignalPatch

namespace Document

/-- What stands before a node: an anchor, by its place among the anchors, and a tag. -/
structure Properties where
  anchor : Option Nat
  tag : Option TagText

namespace Properties

def none : Properties :=
  ⟨.none, .none⟩

def isNone (properties : Properties) : Bool :=
  properties.anchor.isNone && properties.tag.isNone

end Properties

/-- How a sequence is written. -/
inductive SequenceForm where
  | block
  /-- At the column of the key that it belongs to. -/
  | flush
  | bracketed
deriving DecidableEq

structure MappingBegun where
  bracketed : Bool
  properties : Properties
  /-- The entries so far, the last one first. -/
  before : List (Node × Node)

/-- A part of a document that is begun. -/
inductive Begun where
  | items (form : SequenceForm) (properties : Properties) (before : List Node)
  | entries (mapping : MappingBegun)
  | key (mapping : MappingBegun)
  | value (mapping : MappingBegun) (key : Node)
  | lone (mapping : MappingBegun)
  | pairKey
  /-- The next node is the value of a key in a mapping of one entry. -/
  | pairValue (key : Node)

def MappingBegun.add (mapping : MappingBegun) (key value : Node) : Begun :=
  .entries { mapping with before := (key, value) :: mapping.before }

inductive Next where
  /-- Read a node, which may be a block, or a sequence at the column of its key. -/
  | read (block flush : Bool)
  | put (node : Node)
  /-- Go on with the sequence or the mapping that was begun last. -/
  | resume

def Next.parts : Next → Nat
  | put node => node.parts
  | _ => 0

/-- The state of building a document. -/
structure Building where
  tokens : List Token
  begun : List Begun
  anchors : Anchors
  handles : List (TagText × TagText)

/-- A step of building: what to do next, and the state. -/
abbrev Step :=
  Next × Building

namespace Building

def skip (building : Building) : Building :=
  { building with tokens := building.tokens.tail }

def begin (building : Building) (part : Begun) : Building :=
  { building with begun := part :: building.begun }

def leave (building : Building) : Building :=
  { building with begun := building.begun.tail }

def isAt (building : Building) (tokens : List Token) : Bool :=
  building.tokens.head?.any (fun token => tokens.contains token)

/-- The tag of a handle and a suffix; a handle must stand for something. -/
def tag? (building : Building) (handle suffix : TagText) : Option TagText :=
  if handle.isEmpty then some suffix
  else (building.handles.lookup handle).map (fun meaning => meaning ++ suffix)

/-- Read an anchor in front of a node, if there is one. -/
def readAnchor (building : Building) (properties : Properties) : Properties × Building :=
  match building.tokens, properties.anchor with
  | .anchor name :: tokens, none =>
      let ⟨_, begun, anchors, handles⟩ := building
      (⟨some anchors.count, properties.tag⟩, ⟨tokens, begun, anchors.declare name, handles⟩)
  | _, _ => (properties, building)

/-- Read a tag in front of a node, if there is one. -/
def readTag (building : Building) (properties : Properties) : Option (Properties × Building) :=
  match building.tokens, properties.tag with
  | .tag handle suffix :: _, none =>
      (building.tag? handle suffix).map (fun tag =>
        (⟨properties.anchor, some tag⟩, building.skip))
  | _, _ => some (properties, building)

/-- Read an anchor and a tag in front of a node, in any order. -/
def readProperties (building : Building) : Option (Properties × Building) := do
  let (properties, building) := building.readAnchor .none
  let (properties, building) ← building.readTag properties
  return building.readAnchor properties

def finish (building : Building) (properties : Properties) (node : Node) : Step :=
  match properties.anchor with
  | none => (.put node, building)
  | some anchor =>
      let ⟨tokens, begun, anchors, handles⟩ := building
      (.put node, ⟨tokens, begun, anchors.place anchor node, handles⟩)

/-- Finish the sequence of some items, the last one first. -/
def finishItems (building : Building) (properties : Properties) (before : List Node) : Step :=
  building.finish properties (.sequence properties.tag before.reverse)

def finishEntries (building : Building) (mapping : MappingBegun) : Step :=
  building.finish mapping.properties (.mapping mapping.properties.tag mapping.before.reverse)

end Building

end Document

end SignalPatch
