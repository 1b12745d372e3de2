import SignalPatch.Control.Mapping
import SignalPatch.Files.ByteOrder

/-!
# Control packets

Control messages arrive in packets.  A packet is a message or a bundle of
packets.  Inside a datagram every text and every blob is filled up to a multiple
of four bytes, counted from the start of the datagram.
-/

namespace SignalPatch

/-- What one datagram carries. -/
inductive ControlPacket where
  | message (message : ControlMessage)
  | bundle (packets : List ControlPacket)

/-- What is left of a datagram, and how many bytes came before it. -/
structure DatagramRest where
  offset : Nat
  bytes : List UInt8

/-- An action that takes bytes from the front of what is left of a datagram. -/
abbrev DatagramReader :=
  StateT DatagramRest Option

namespace DatagramReader

def bytes (count : Nat) : DatagramReader (List UInt8) :=
  fun rest =>
    let taken := rest.bytes.take count
    if taken.length = count then some (taken, ⟨rest.offset + count, rest.bytes.drop count⟩)
    else none

/-- Leave out bytes up to the next multiple of four. -/
def fill : DatagramReader Unit := do
  let rest ← get
  let _ ← bytes ((4 - rest.offset % 4) % 4)

/-- The next number of so many bytes. -/
def word (count : Nat) : DatagramReader Nat := do
  return ByteOrder.bigEndian (← bytes count)

/-- The next text, which a zero byte ends. -/
def text : DatagramReader String := do
  let rest ← get
  let content ← bytes (rest.bytes.takeWhile (fun byte => byte != 0)).length
  let _ ← bytes 1
  fill
  String.fromUTF8? content.toByteArray

/-- The next blob, whose length comes first. -/
def blob : DatagramReader ByteArray := do
  let content ← bytes (← word 4)
  fill
  return content.toByteArray

def character : DatagramReader Char := do
  let code ← word 4
  if code.isValidChar then return Char.ofNat code else failure

def quadruple {Value : Type} (build : UInt8 → UInt8 → UInt8 → UInt8 → Value) :
    DatagramReader Value := do
  match ← bytes 4 with
  | [first, second, third, fourth] => return build first second third fourth
  | _ => failure

/-- The next argument of the type that a tag names. -/
def argument : Char → DatagramReader Argument
  | 'i' => do return .int (Int32.ofNat (← word 4))
  | 'h' => do return .long (Int64.ofNat (← word 8))
  | 'f' => do return .float ⟨(← word 4).toUInt32⟩
  | 'd' => do return .double (.ofBits (← word 8).toUInt64)
  | 's' => do return .string (← text)
  | 'b' => do return .blob (← blob)
  | 'c' => do return .character (← character)
  | 't' => do
      let seconds ← word 4
      let fraction ← word 4
      return .time seconds.toUInt32 fraction.toUInt32
  | 'r' => quadruple .color
  | 'm' => quadruple .midi
  | 'T' => pure (.bool true)
  | 'F' => pure (.bool false)
  | 'N' => pure .nil
  | 'I' => pure .infinitum
  | _ => failure

/--
The arguments that a list of tags announces, behind those before them.  A
bracket opens a list inside the list; the lists around it wait in `outer`.  Of
a list that is never closed only what is inside is left.
-/
def arguments : List Char → List Argument → List (List Argument) →
    DatagramReader (List Argument)
  | [], before, _ => pure before
  | '[' :: tags, before, outer => arguments tags [] (before :: outer)
  | ']' :: tags, before, around :: outer => arguments tags (around ++ [.array before]) outer
  | ']' :: _, _, [] => failure
  | tag :: tags, before, outer => do
      arguments tags (before ++ [← argument tag]) outer

/-- The rest of a message, after its address. -/
def message (address : String) : DatagramReader ControlMessage := do
  let tags ← text
  return ⟨address, ← arguments (tags.toList.drop 1) [] []⟩

def element (packet : DatagramReader ControlPacket) : DatagramReader ControlPacket := do
  let length ← word 4
  let start ← get
  let content ← bytes length
  let (inner, _) ← packet.run ⟨start.offset, content⟩
  return inner

/-- At most so many elements of a bundle; the first broken one ends them. -/
def elements (packet : DatagramReader ControlPacket) :
    Nat → List ControlPacket → DatagramReader (List ControlPacket)
  | 0, before => pure before.reverse
  | count + 1, before => fun rest =>
      match (element packet).run rest with
      | some (inner, rest) => elements packet count (inner :: before) rest
      | none => some (before.reverse, rest)

/-- A packet that is nested to at most the given depth. -/
def packet : Nat → DatagramReader ControlPacket
  | 0 => failure
  | depth + 1 => do
      let name ← text
      if name.startsWith "/" then
        return .message (← message name)
      else if name == "#bundle" then
        let _ ← bytes 8
        let rest ← get
        return .bundle (← elements (packet depth) rest.bytes.length [])
      else
        failure

end DatagramReader

namespace ControlPacket

/-- The longest datagram that is received whole. -/
def maxDatagram : Nat :=
  4096

/--
The packet at the front of a datagram, if there is one.  Every level of nesting
takes bytes of its own, so that the length bounds the depth.
-/
def ofDatagram? (datagram : List UInt8) : Option ControlPacket :=
  let received := datagram.take maxDatagram
  ((DatagramReader.packet (received.length + 1)).run ⟨0, received⟩).map (fun result => result.1)

mutual

/-- The messages of a packet in their order, bundles opened. -/
def messages : ControlPacket → List ControlMessage
  | .message single => [single]
  | .bundle packets => messagesOfAll packets

def messagesOfAll : List ControlPacket → List ControlMessage
  | [] => []
  | packet :: packets => packet.messages ++ messagesOfAll packets

end

end ControlPacket

end SignalPatch
