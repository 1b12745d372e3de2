import SignalPatch.Control.Packet
import SignalPatch.Machine.Core

/-!
# Dispatching control packets

A packet acts through its messages one after the other.  A message without a
meaning under the mappings is passed over, and so is a datagram that is no
packet.
-/

namespace SignalPatch

namespace Core

/-- Make the change that a message asks for under the mappings. -/
def applyMessage (mappings : List ControlMapping) (core : Core) (message : ControlMessage) :
    Core :=
  match message.event? mappings with
  | none => core
  | some event => core.applyEvent event

mutual

def dispatch (mappings : List ControlMapping) (core : Core) : ControlPacket → Core
  | .message message => core.applyMessage mappings message
  | .bundle packets => core.dispatchAll mappings packets

def dispatchAll (mappings : List ControlMapping) (core : Core) : List ControlPacket → Core
  | [] => core
  | packet :: packets => (core.dispatch mappings packet).dispatchAll mappings packets

end

def receive (mappings : List ControlMapping) (core : Core) (datagram : List UInt8) : Core :=
  match ControlPacket.ofDatagram? datagram with
  | none => core
  | some packet => core.dispatch mappings packet

end Core

end SignalPatch
