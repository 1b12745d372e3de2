import SignalPatch.Program.Instruction

/-!
# Filters

Each filter call of a patch has a memory of its own, at a numbered site.  The
coefficients come with every call and may change from one to the next; only
past inputs and outputs are remembered.  All memories start from silence.
-/

namespace SignalPatch

/-- What a filter remembers: its latest inputs, newest first, and its last two outputs. -/
structure FilterMemory where
  history : Vector Sample maxTaps
  lastOutput : Sample
  previousOutput : Sample

namespace FilterMemory

/-- The memory before the first call. -/
def silent : FilterMemory :=
  ⟨Vector.replicate maxTaps 0, 0, 0⟩

/-- The inputs with a new one in front; the oldest is forgotten. -/
def remember (history : Vector Sample maxTaps) (input : Sample) : Vector Sample maxTaps :=
  Vector.ofFn (fun age =>
    if newest : age.val = 0 then input else history[age.val - 1])

/-- The sum of products of two lists, added from the front onto negative zero. -/
def weightedSum (weights values : List Sample) : Sample :=
  (weights.zip values).foldl (fun sum (weight, value) => sum + weight * value) (-0.0)

/-- One step of a finite impulse response with the given taps. -/
def fir (memory : FilterMemory) (input : Sample) (taps : List Sample) :
    Sample × FilterMemory :=
  let history := remember memory.history input
  (weightedSum taps history.toList, ⟨history, memory.lastOutput, memory.previousOutput⟩)

/-- The coefficients of a second-order section. -/
structure BiquadCoefficients where
  b0 : Sample
  b1 : Sample
  b2 : Sample
  a1 : Sample
  a2 : Sample

/-- One step of a second-order section. -/
def biquad (memory : FilterMemory) (input : Sample) (coefficients : BiquadCoefficients) :
    Sample × FilterMemory :=
  let ⟨b0, b1, b2, a1, a2⟩ := coefficients
  let ⟨history, lastOutput, previousOutput⟩ := memory
  let output := b0 * input + b1 * history[0] + b2 * history[1]
    - a1 * lastOutput - a2 * previousOutput
  (output, ⟨(history.set 1 history[0]).set 0 input, output, lastOutput⟩)

end FilterMemory

/-- The memories of all sites. -/
structure FilterBank where
  sites : Array FilterMemory

namespace FilterBank

def withSites (count : Nat) : FilterBank :=
  ⟨Array.replicate count FilterMemory.silent⟩

def size (bank : FilterBank) : Nat :=
  bank.sites.size

def isEmpty (bank : FilterBank) : Bool :=
  bank.sites.isEmpty

/-- One step of a filter on the coefficients behind its input, if it takes so many. -/
def stepMemory (memory : FilterMemory) (kind : FilterKind) (input : Sample)
    (coefficients : List Sample) : Option (Sample × FilterMemory) :=
  match kind, coefficients with
  | .fir, taps => if taps.length ≤ maxTaps then some (memory.fir input taps) else none
  | .biquad, [b0, b1, b2, a1, a2] => some (memory.biquad input ⟨b0, b1, b2, a1, a2⟩)
  | .biquad, _ => none

/--
Run the filter at a site on the arguments of a call, its input first.  There is
no output, and nothing is remembered, where there is no such site or the
arguments do not fit.
-/
def process : FilterBank → Nat → FilterKind → List Sample → Option Sample × FilterBank
  | ⟨sites⟩, site, kind, arguments =>
      if inside : site < sites.size then
        match arguments with
        | [] => (none, ⟨sites⟩)
        | input :: coefficients =>
            match stepMemory sites[site] kind input coefficients with
            | none => (none, ⟨sites⟩)
            | some (output, memory) => (some output, ⟨sites.set site memory⟩)
      else (none, ⟨sites⟩)

end FilterBank

end SignalPatch
