import SignalPatch.Main
import SignalPatch.Proofs.Control.PacketEffects
import SignalPatch.Proofs.Files.LastEdit
import SignalPatch.Proofs.Language.BalancedCode
import SignalPatch.Proofs.Language.BoundedReading
import SignalPatch.Proofs.Language.DrivenPorts
import SignalPatch.Proofs.Language.FaultPosition
import SignalPatch.Proofs.Language.FirstFault
import SignalPatch.Proofs.Language.JoinedPatches
import SignalPatch.Proofs.Language.Meaning
import SignalPatch.Proofs.Language.PrintedText
import SignalPatch.Proofs.Language.Renaming
import SignalPatch.Proofs.Language.SlotOrder
import SignalPatch.Proofs.Machine.BlockTicks
import SignalPatch.Proofs.Machine.BoundedList
import SignalPatch.Proofs.Machine.DifferenceEquations
import SignalPatch.Proofs.Machine.FailedStart
import SignalPatch.Proofs.Machine.FreshLoad
import SignalPatch.Proofs.Machine.Pauses
import SignalPatch.Proofs.Machine.Rendering
import SignalPatch.Proofs.Machine.Stops
import SignalPatch.Proofs.Queues.Channels
import SignalPatch.Proofs.Queues.LostFrames
import SignalPatch.Proofs.Source.Turns
