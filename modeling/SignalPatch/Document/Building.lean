import SignalPatch.Document.Begun

/-!
# Building documents

A node is built step by step: it is read, put where it belongs, and what was
begun around it goes on.  A key or a value that is left out is an empty scalar.
-/

namespace SignalPatch

namespace Document

namespace Building

def readContent (building : Building) (properties : Properties) (block flush : Bool) :
    Option Step :=
  match building.tokens, block, flush with
  | .item :: _, _, true => some (.resume, building.begin (.items .flush properties []))
  | .scalar style text :: _, _, _ =>
      some (building.skip.finish properties (.scalar properties.tag style text))
  | .openSequence :: _, _, _ =>
      some (.resume, building.skip.begin (.items .bracketed properties []))
  | .openMapping :: _, _, _ =>
      some (.resume, building.skip.begin (.entries ⟨true, properties, []⟩))
  | .blockSequence :: _, true, _ =>
      some (.resume, building.skip.begin (.items .block properties []))
  | .blockMapping :: _, true, _ =>
      some (.resume, building.skip.begin (.entries ⟨false, properties, []⟩))
  | _, _, _ =>
      if properties.isNone then none
      else some (building.finish properties (.scalar properties.tag .plain []))

def read (building : Building) (block flush : Bool) : Option Step :=
  match building.tokens with
  | .alias name :: _ =>
      (building.anchors.number? name).map (fun number => (.put (.alias number), building.skip))
  | _ => do
      let (properties, building) ← building.readProperties
      building.readContent properties block flush

/-- Read a node; one of some tokens says that it is left out. -/
def readUnless (building : Building) (ends : List Token) (block flush : Bool) : Step :=
  if building.isAt ends then (.put .empty, building) else (.read block flush, building)

/-- The key of a mapping whose mark has been read. -/
def readKey (building : Building) (bracketed : Bool) : Step :=
  if bracketed then building.readUnless [.value, .comma, .closeMapping] false false
  else building.readUnless [.key, .value, .blockEnd] true true

/-- The value behind a key, which is empty without a colon. -/
def readValue (building : Building) (bracketed : Bool) (close : Token) : Step :=
  if building.isAt [.value] then
    if bracketed then building.skip.readUnless [.comma, close] false false
    else building.skip.readUnless [.key, .value, close] true true
  else (.put .empty, building)

/-- Put a node where it belongs; there must be something begun. -/
def put (building : Building) (node : Node) : Option Step :=
  let ⟨tokens, begun, anchors, handles⟩ := building
  match begun with
  | [] => none
  | .items form properties before :: begun =>
      some (.resume, ⟨tokens, .items form properties (node :: before) :: begun, anchors, handles⟩)
  | .entries _ :: _ => none
  | .key mapping :: begun =>
      let close : Token := if mapping.bracketed then .closeMapping else .blockEnd
      some ((Building.mk tokens (.value mapping node :: begun) anchors handles).readValue
        mapping.bracketed close)
  | .value mapping key :: begun =>
      some (.resume, ⟨tokens, mapping.add key node :: begun, anchors, handles⟩)
  | .lone mapping :: begun =>
      some (.resume, ⟨tokens, mapping.add node .empty :: begun, anchors, handles⟩)
  | .pairKey :: begun =>
      some ((Building.mk tokens (.pairValue node :: begun) anchors handles).readValue
        true .closeSequence)
  | .pairValue key :: begun =>
      some (.put (.mapping none [(key, node)]), ⟨tokens, begun, anchors, handles⟩)

/-- The comma that must stand before all items and entries but the first. -/
def readComma (building : Building) (first : Bool) : Option Building :=
  if first then some building
  else if building.isAt [.comma] then some building.skip
  else none

/-- An item of a sequence in brackets behind its mark for a key; a mark behind it is lost. -/
def readPair (building : Building) : Step :=
  let building := building.begin .pairKey
  if building.isAt [.value, .comma, .closeSequence] then (.put .empty, building.skip)
  else (.read false false, building)

def resumeItems (building : Building) (form : SequenceForm) (properties : Properties)
    (before : List Node) : Option Step :=
  match form, building.tokens with
  | .block, .item :: _ => some (building.skip.readUnless [.item, .blockEnd] true false)
  | .block, .blockEnd :: _ => some (building.skip.leave.finishItems properties before)
  | .block, _ => none
  | .flush, .item :: _ =>
      some (building.skip.readUnless [.item, .key, .value, .blockEnd] true false)
  | .flush, _ => some (building.leave.finishItems properties before)
  | .bracketed, .closeSequence :: _ => some (building.skip.leave.finishItems properties before)
  | .bracketed, _ => do
      let building ← building.readComma before.isEmpty
      match building.tokens with
      | .closeSequence :: _ => return building.skip.leave.finishItems properties before
      | .key :: _ => return building.skip.readPair
      | _ => return (.read false false, building)

def resumeEntries (building : Building) (mapping : MappingBegun) : Option Step :=
  match mapping.bracketed, building.tokens with
  | false, .key :: _ => some ((building.skip.leave.begin (.key mapping)).readKey false)
  | false, .blockEnd :: _ => some (building.skip.leave.finishEntries mapping)
  | false, _ => none
  | true, .closeMapping :: _ => some (building.skip.leave.finishEntries mapping)
  | true, _ => do
      let building ← building.readComma mapping.before.isEmpty
      match building.tokens with
      | .closeMapping :: _ => return building.skip.leave.finishEntries mapping
      | .key :: _ => return (building.skip.leave.begin (.key mapping)).readKey true
      | _ => return (.read false false, building.leave.begin (.lone mapping))

def resume (building : Building) : Option Step :=
  match building.begun with
  | .items form properties before :: _ => building.resumeItems form properties before
  | .entries mapping :: _ => building.resumeEntries mapping
  | _ => none

def perform (building : Building) : Next → Option Step
  | .read block flush => building.read block flush
  | .put node => building.put node
  | .resume => building.resume

/--
Build the rest of a document in fewer than the given number of steps, when some
of its parts are complete; what is left are the tokens behind it.
-/
def run : (fuel parts : Nat) → Step → Option (Document × List Token)
  | 0, _, _ => none
  | _ + 1, parts, (.put root, ⟨tokens, [], anchors, _⟩) =>
      some (⟨root, anchors, parts + root.parts⟩, tokens)
  | fuel + 1, parts, (next, building) =>
      match building.perform next with
      | none => none
      | some step => run fuel (parts + next.parts) step

end Building

end Document

end SignalPatch
