import SignalPatch.Sample.Basic

/-!
# Frames

The signal is a sequence of stereo frames.
-/

namespace SignalPatch

/-- One stereo sample pair. -/
structure Frame where
  left : Sample
  right : Sample
deriving DecidableEq

namespace Frame

def silence : Frame :=
  ⟨0, 0⟩

def mono (value : Sample) : Frame :=
  ⟨value, value⟩

def mean (frame : Frame) : Sample :=
  (frame.left + frame.right) / 2

theorem mean_eq (frame : Frame) : frame.mean = (frame.left + frame.right) / 2 :=
  rfl

def map (change : Sample → Sample) (frame : Frame) : Frame :=
  ⟨change frame.left, change frame.right⟩

/-- Channelwise the louder of a level and the magnitude of a sample. -/
def raise (levels frame : Frame) : Frame :=
  ⟨Sample.peak levels.left frame.left.abs, Sample.peak levels.right frame.right.abs⟩

instance : Inhabited Frame :=
  ⟨silence⟩

end Frame

end SignalPatch
