import Mathlib.Data.List.Basic
import SignalPatch.Language.Compile
import SignalPatch.Proofs.Machine.Blocks
import SignalPatch.Render

/-!
# Rendering is ticking

A rendering pulls block after block through a transport, but its frames are those
that the machine plays one by one in silence.  How they are cut into blocks changes
nothing, so a longer rendering goes on where a shorter one ends.
-/

namespace SignalPatch

/-- The frames of a sound card that is silent for so long. -/
abbrev silences (frames : Nat) : List Frame :=
  List.replicate frames .silence

namespace Machine

/-- A machine that runs a patch, with the frames of the file source if there are any. -/
def startedWith (config : EngineConfig) (patch : Patch) (file : Option (Array Frame)) : Machine :=
  ((file.elim (create config) (create config).setFileFrames).load patch).setRunState .running

theorem frameAt_replicate_zero (cells index : Nat) :
    frameAt (Array.replicate cells 0) index = .silence := by
  unfold frameAt
  split
  · rename_i left right leftEq rightEq
    obtain ⟨_, rfl⟩ := Array.getElem?_eq_some_iff.mp leftEq
    obtain ⟨_, rfl⟩ := Array.getElem?_eq_some_iff.mp rightEq
    simp [Frame.silence]
  · rfl

theorem livesFor_replicate_zero (frames : Nat) :
    livesFor (Array.replicate (2 * frames) 0) (2 * frames) = silences frames := by
  have countEq : (2 * frames + 1) / 2 = frames := by omega
  apply List.eq_replicate_iff.mpr
  refine ⟨by simp [livesFor, livesFrom, countEq], ?_⟩
  intro live member
  obtain ⟨index, _, rfl⟩ := List.mem_map.mp member
  exact frameAt_replicate_zero _ _

end Machine

/-- So many frames of a machine were pulled in silence through an open transport. -/
structure HasPulled (machine : Machine) (frames : Nat)
    (pulled : Array Sample × VirtualMachine) : Prop where
  samples_eq : pulled.1.toList = interleaved (machine.play (silences frames))
  isOpen_eq : pulled.2.isOpen = true
  held_eq : pulled.2.core.held = false
  machine_eq : ∃ levels,
    pulled.2.core.machine = (machine.afterAll (silences frames)).withLevels levels

namespace HasPulled

variable {machine : Machine} {frames : Nat} {samples : Array Sample} {virtual : VirtualMachine}

/-- A block is pulled on behind what was pulled before. -/
theorem pullBlock (before : HasPulled machine frames (samples, virtual)) (more : Nat) :
    HasPulled machine (frames + more) (pullBlock samples more virtual) := by
  obtain ⟨samplesEq, isOpenEq, heldEq, levels, machineEq⟩ := before
  obtain ⟨⟨current, held, poisoned⟩, isOpen⟩ := virtual
  dsimp only at samplesEq isOpenEq heldEq machineEq
  subst isOpenEq heldEq machineEq
  have silencesEq : silences (frames + more) = silences frames ++ silences more :=
    List.replicate_append_replicate.symm
  obtain ⟨blockEq, lowered, afterEq⟩ :=
    ((machine.afterAll (silences frames)).withLevels levels).processBlock_eq
      (Array.replicate (2 * more) 0) (2 * more)
  rw [Machine.livesFor_replicate_zero] at blockEq afterEq
  obtain ⟨playEq, raised, restEq⟩ :=
    (machine.afterAll (silences frames)).play_withLevels levels (silences more)
  refine ⟨?_, rfl, rfl, lowered, ?_⟩
  · change (samples ++ _).toList = _
    rw [Array.toList_append, samplesEq, silencesEq, Machine.play_append, interleaved_append]
    refine congrArg _ (blockEq.trans ?_)
    rw [playEq]
    exact List.take_of_length_le (by simp)
  · rw [silencesEq, Machine.afterAll_append]
    refine afterEq.trans ?_
    rw [restEq]
    rfl

theorem pullBlocks (before : HasPulled machine frames (samples, virtual)) (blocks : Nat) :
    HasPulled machine (frames + blocks * blockFrames) (pullBlocks blocks samples virtual) := by
  induction blocks generalizing frames samples virtual with
  | zero => simpa [SignalPatch.pullBlocks] using before
  | succ blocks ih =>
      have first := before.pullBlock blockFrames
      have whole := ih first
      rw [Nat.succ_mul, Nat.add_comm (blocks * blockFrames), ← Nat.add_assoc]
      exact whole

end HasPulled

/-- The transport that renders opens, and nothing is pulled from the machine before. -/
theorem exists_startedMachine_eq (config : EngineConfig) (patch : Patch)
    (file : Option (Array Frame)) :
    ∃ virtual, startedMachine config patch file = .ok virtual ∧
      HasPulled (.startedWith config patch file) 0 (#[], virtual) := by
  cases file with
  | none => exact ⟨_, rfl, rfl, rfl, rfl, .silence, rfl⟩
  | some frames => exact ⟨_, rfl, rfl, rfl, rfl, .silence, rfl⟩

theorem hasPulled_rest {machine : Machine} {frames : Nat} {samples : Array Sample}
    {virtual : VirtualMachine} (before : HasPulled machine frames (samples, virtual))
    (rest : Nat) :
    HasPulled machine (frames + rest)
      (if rest = 0 then (samples, virtual) else pullBlock samples rest virtual) := by
  split
  · rename_i none
    rw [none]
    exact before
  · exact before.pullBlock rest

/-- A rendering is what was pulled in its frames. -/
theorem exists_hasPulled_render (config : EngineConfig) (patch : Patch)
    (file : Option (Array Frame)) {frames : Nat} (counted : 2 * frames < UInt64.size) :
    ∃ pulled, HasPulled (.startedWith config patch file) frames pulled ∧
      render config patch file frames = ⟨pulled.1, pulled.2.core.machine.guardTrips⟩ := by
  have framesEq : samplesIn frames / 2 = frames := by
    have samplesEq : samplesIn frames = 2 * frames := Nat.mod_eq_of_lt counted
    rw [samplesEq]
    omega
  obtain ⟨virtual, startedEq, started⟩ := exists_startedMachine_eq config patch file
  have blocks := started.pullBlocks (frames / blockFrames)
  have whole := hasPulled_rest blocks (frames % blockFrames)
  have sumEq : 0 + frames / blockFrames * blockFrames + frames % blockFrames = frames := by
    rw [Nat.zero_add, Nat.mul_comm]
    exact Nat.div_add_mod _ _
  rw [sumEq] at whole
  refine ⟨_, whole, ?_⟩
  have tryEq : tryRender config patch file frames = .ok (pullFrames virtual frames) := by
    rw [tryRender, startedEq]
    rfl
  rw [tryRender_eq, Except.ok.injEq] at tryEq
  rw [tryEq, pullFrames, framesEq]

/--
A rendering succeeds.  It holds the frames that the machine plays in silence, counts the
ticks that the guard aborts, and starts with every shorter rendering.
-/
theorem render_eq_play (config : EngineConfig) (patch : Patch) (file : Option (Array Frame))
    {frames : Nat} (counted : 2 * frames < UInt64.size) :
    tryRender config patch file frames = .ok (render config patch file frames) ∧
      (render config patch file frames).samples.size = 2 * frames ∧
      (render config patch file frames).samples.toList =
        interleaved ((Machine.startedWith config patch file).play (silences frames)) ∧
      (render config patch file frames).guardTrips =
        ((Machine.startedWith config patch file).guards (silences frames)).countP Option.isSome ∧
      ∀ fewer ≤ frames, (render config patch file fewer).samples.toList <+:
        (render config patch file frames).samples.toList := by
  have samplesEq : ∀ count ≤ frames, (render config patch file count).samples.toList =
      interleaved ((Machine.startedWith config patch file).play (silences count)) := by
    intro count few
    obtain ⟨pulled, hasPulled, renderEq⟩ := exists_hasPulled_render config patch file
      (Nat.lt_of_le_of_lt (Nat.mul_le_mul_left 2 few) counted)
    rw [renderEq]
    exact hasPulled.samples_eq
  refine ⟨tryRender_eq config patch file frames, ?_, samplesEq frames (Nat.le_refl _), ?_, ?_⟩
  · rw [← Array.length_toList, samplesEq frames (Nat.le_refl _)]
    simp
  · obtain ⟨pulled, hasPulled, renderEq⟩ := exists_hasPulled_render config patch file counted
    obtain ⟨levels, machineEq⟩ := hasPulled.machine_eq
    have tripsEq := Machine.guardTrips_afterAll (.startedWith config patch file) (silences frames)
    have fresh : (Machine.startedWith config patch file).guardTrips = 0 := by
      cases file <;> rfl
    rw [fresh, Nat.zero_add] at tripsEq
    rw [renderEq, ← tripsEq, machineEq]
    rfl
  · intro fewer few
    obtain ⟨more, rfl⟩ := Nat.exists_eq_add_of_le few
    have silencesEq : silences (fewer + more) = silences fewer ++ silences more :=
      List.replicate_append_replicate.symm
    rw [samplesEq fewer few, samplesEq _ (Nat.le_refl _), silencesEq, Machine.play_append,
      interleaved_append]
    exact List.prefix_append _ _

/-- A file of two frames is played in a loop, with the channels of each frame exchanged. -/
theorem render_eq_play_exchanged :
    ∃ patch rendering, compile "outl = inr\noutr = inl" = .ok patch ∧
      tryRender { EngineConfig.standard with source := .file } patch
        (some #[⟨⟨1⟩, ⟨2⟩⟩, ⟨⟨3⟩, ⟨4⟩⟩]) 3 = .ok rendering ∧
      rendering.samples.toList = [⟨2⟩, ⟨1⟩, ⟨4⟩, ⟨3⟩, ⟨2⟩, ⟨1⟩] ∧
      rendering.guardTrips = 0 := by
  have compiled : compile "outl = inr\noutr = inl" =
      .ok ⟨⟨[.read 1, .write 0, .read 3, .write 2], 0⟩,
        .ofNames ["outl", "inr", "outr", "inl"]⟩ := by
    decide +kernel
  obtain ⟨renderEq, _, samplesEq, tripsEq, _⟩ := render_eq_play
    { EngineConfig.standard with source := .file }
    ⟨⟨[.read 1, .write 0, .read 3, .write 2], 0⟩, .ofNames ["outl", "inr", "outr", "inl"]⟩
    (some #[⟨⟨1⟩, ⟨2⟩⟩, ⟨⟨3⟩, ⟨4⟩⟩]) (show 2 * 3 < UInt64.size by decide)
  refine ⟨_, _, compiled, renderEq, samplesEq.trans ?_, tripsEq.trans ?_⟩
  · decide +kernel
  · decide +kernel

end SignalPatch
