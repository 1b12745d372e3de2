import SignalPatch.Machine.Virtual

/-!
# Rendering

A patch is rendered by pulling blocks through a transport that needs no device.
The sound card is silent.
-/

namespace SignalPatch

def blockFrames : Nat :=
  512

/-- Interleaved samples, and the number of ticks that were aborted. -/
structure Rendering where
  samples : Array Sample
  guardTrips : Nat

namespace Rendering

def frames (rendering : Rendering) : Nat :=
  rendering.samples.size / 2

def peak (rendering : Rendering) : Sample :=
  rendering.samples.foldl (fun peak sample => Sample.peak peak sample.abs) 0

end Rendering

def pullBlock (before : Array Sample) (frames : Nat) (virtual : VirtualMachine) :
    Array Sample × VirtualMachine :=
  let (block, virtual) := virtual.pull (Array.replicate (2 * frames) 0) (2 * frames)
  (before ++ block, virtual)

def pullBlocks : Nat → Array Sample → VirtualMachine → Array Sample × VirtualMachine
  | 0, before, virtual => (before, virtual)
  | blocks + 1, before, virtual =>
      let (before, virtual) := pullBlock before blockFrames virtual
      pullBlocks blocks before virtual

/-- The answer of the transport that renders, which has no device that could be missing. -/
def offlineOpening : Except TransportError Unit :=
  .ok ()

/-- A machine with a patch, and with the frames of the file source if there are any. -/
def loadedMachine (config : EngineConfig) (patch : Patch) (file : Option (Array Frame)) :
    VirtualMachine :=
  let virtual := VirtualMachine.create config
  let virtual := file.elim virtual (fun frames =>
    virtual.control (fun core => core.setFileFrames frames))
  virtual.control (fun core => core.load patch)

/-- A machine that runs a patch, unless its transport does not open. -/
def startedMachine (config : EngineConfig) (patch : Patch) (file : Option (Array Frame)) :
    Except TransportError VirtualMachine :=
  match (loadedMachine config patch file).start offlineOpening with
  | (.ok (), virtual) => .ok virtual
  | (.error error, _) => .error error

/-- The number of samples in so many frames, as far as 64 bits hold it. -/
def samplesIn (frames : Nat) : Nat :=
  2 * frames % 0x10000000000000000

/-- Pull so many frames in silence, or as many as their samples make when they are counted. -/
def pullFrames (virtual : VirtualMachine) (frames : Nat) : Rendering :=
  let frames := samplesIn frames / 2
  let (samples, virtual) := pullBlocks (frames / blockFrames) #[] virtual
  let rest := frames % blockFrames
  let (samples, virtual) := if rest = 0 then (samples, virtual) else pullBlock samples rest virtual
  ⟨samples, virtual.core.machine.guardTrips⟩

/-- Render so many frames of a patch, unless the transport does not open. -/
def tryRender (config : EngineConfig) (patch : Patch) (file : Option (Array Frame))
    (frames : Nat) : Except TransportError Rendering :=
  (startedMachine config patch file).map (fun virtual => pullFrames virtual frames)

theorem exists_tryRender_eq (config : EngineConfig) (patch : Patch)
    (file : Option (Array Frame)) (frames : Nat) :
    ∃ rendering, tryRender config patch file frames = .ok rendering :=
  ⟨_, rfl⟩

theorem isSome_tryRender (config : EngineConfig) (patch : Patch) (file : Option (Array Frame))
    (frames : Nat) : (tryRender config patch file frames).toOption.isSome := by
  obtain ⟨rendering, renderEq⟩ := exists_tryRender_eq config patch file frames
  rw [renderEq]
  rfl

/-- What is rendered: the transport always opens. -/
def render (config : EngineConfig) (patch : Patch) (file : Option (Array Frame))
    (frames : Nat) : Rendering :=
  (tryRender config patch file frames).toOption.get (isSome_tryRender config patch file frames)

theorem tryRender_eq (config : EngineConfig) (patch : Patch) (file : Option (Array Frame))
    (frames : Nat) :
    tryRender config patch file frames = .ok (render config patch file frames) := by
  obtain ⟨rendering, renderEq⟩ := exists_tryRender_eq config patch file frames
  simp only [render, renderEq, Except.toOption, Option.get_some]

end SignalPatch
