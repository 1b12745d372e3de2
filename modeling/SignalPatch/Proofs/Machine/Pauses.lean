import SignalPatch.Proofs.Machine.Silence
import SignalPatch.Proofs.Machine.Transport

/-!
# Pauses are not heard

A run goes on as if the frames and blocks had never been asked for that found a machine
idle or its lock held, as if no holder of the lock had died, and as if a running machine had
not been stopped and started again.  Only what is displayed tells the difference.
-/

namespace SignalPatch

namespace Machine

variable {first second : Machine}

theorem SameSignal.tick (same : first.SameSignal second) (live : Frame) :
    (second.tick live).1 = (first.tick live).1 ∧
      (first.tick live).2.SameSignal (second.tick live).2 := by
  obtain ⟨levels, telemetry, rfl⟩ := same
  obtain ⟨raised, tickEq⟩ := first.tick_withDisplays levels telemetry live
  rw [tickEq]
  exact ⟨rfl, _, _, rfl⟩

theorem SameSignal.play (same : first.SameSignal second) (lives : List Frame) :
    second.play lives = first.play lives := by
  induction lives generalizing first second with
  | nil => rfl
  | cons live others ih =>
      obtain ⟨frameEq, behind⟩ := same.tick live
      rw [Machine.play, Machine.play, frameEq, ih behind]

theorem SameSignal.processBlock (same : first.SameSignal second) (input : Array Sample)
    (length : Nat) :
    (second.processBlock input length).1 = (first.processBlock input length).1 := by
  apply Array.toList_inj.mp
  rw [(second.processBlock_eq input length).1, (first.processBlock_eq input length).1,
    same.play]

theorem SameSignal.react (same : first.SameSignal second) (event : Event) :
    (first.react event).SameSignal (second.react event) := by
  cases event with
  | tick live => exact (same.tick live).2
  | setSlider index value =>
      obtain ⟨levels, telemetry, rfl⟩ := same
      simp only [Machine.react, setSlider, withDisplays]
      split
      · exact ⟨_, _, rfl⟩
      · exact ⟨_, _, rfl⟩
  | load | decayLevels | setSource | setFileFrames | setRunState =>
      obtain ⟨levels, telemetry, rfl⟩ := same
      exact ⟨_, _, rfl⟩

theorem SameSignal.reactAll (same : first.SameSignal second) (events : List Event) :
    (first.reactAll events).SameSignal (second.reactAll events) := by
  induction events generalizing first second with
  | nil => exact same
  | cons event others ih => exact ih (same.react event)

end Machine

namespace VirtualMachine

variable {first second : VirtualMachine}

theorem SameSignal.symm (same : first.SameSignal second) : second.SameSignal first :=
  ⟨same.machines.symm, same.held_eq.symm, same.isOpen_eq.symm⟩

theorem SameSignal.events_eq (same : first.SameSignal second) (operation : Operation) :
    second.events operation = first.events operation := by
  cases operation <;> simp only [events, ifFree, same.held_eq, same.isOpen_eq]

theorem SameSignal.perform (same : first.SameSignal second) (operation : Operation) :
    (first.perform operation).SameSignal (second.perform operation) := by
  refine ⟨?_, ?_, ?_⟩
  · rw [machine_perform, machine_perform, same.events_eq]
    exact same.machines.reactAll _
  · rw [held_perform, held_perform, same.held_eq]
  · rw [isOpen_perform, isOpen_perform, same.isOpen_eq]

theorem SameSignal.answer (same : first.SameSignal second) (operation : Operation) :
    second.answer operation = first.answer operation := by
  obtain ⟨⟨firstMachine, held, firstPoisoned⟩, isOpen⟩ := first
  obtain ⟨⟨secondMachine, secondHeld, secondPoisoned⟩, secondOpen⟩ := second
  obtain ⟨machines, heldEq, isOpenEq⟩ := same
  cases heldEq
  cases isOpenEq
  cases operation with
  | tick live =>
      cases held with
      | true => rfl
      | false => exact congrArg Answer.frame (machines.tick live).1
  | block input length =>
      cases held with
      | true => rfl
      | false => exact congrArg Answer.samples (machines.processBlock input length)
  | pull input length =>
      cases isOpen with
      | false => rfl
      | true =>
          cases held with
          | true => rfl
          | false => exact congrArg Answer.samples (machines.processBlock input length)
  | start opened => cases opened <;> rfl
  | load | setSlider | setSource | setFileFrames | stop | acquire | release | poison => rfl

end VirtualMachine

/-- What an operation is answered, and what is not displayed of the machine behind it. -/
structure Signal where
  answer : Answer
  table : VariableTable
  filters : FilterBank
  sources : Sources
  guardTrips : Nat

namespace VirtualMachine

variable {first second : VirtualMachine}

def signal (virtual : VirtualMachine) (operation : Operation) : Signal :=
  let machine := (virtual.perform operation).core.machine
  ⟨virtual.answer operation, machine.table, machine.memory.filters, machine.sources,
    machine.guardTrips⟩

def signals : VirtualMachine → List Operation → List Signal
  | _, [] => []
  | virtual, operation :: others =>
      virtual.signal operation :: signals (virtual.perform operation) others

theorem signals_append (virtual : VirtualMachine) (earlier later : List Operation) :
    virtual.signals (earlier ++ later) =
      virtual.signals earlier ++ (virtual.performAll earlier).signals later := by
  induction earlier generalizing virtual with
  | nil => rfl
  | cons operation others ih => exact congrArg _ (ih (virtual.perform operation))

theorem length_signals (virtual : VirtualMachine) (operations : List Operation) :
    (virtual.signals operations).length = operations.length := by
  induction operations generalizing virtual with
  | nil => rfl
  | cons operation others ih => exact congrArg _ (ih (virtual.perform operation))

theorem performAll_append (virtual : VirtualMachine) (earlier later : List Operation) :
    virtual.performAll (earlier ++ later) = (virtual.performAll earlier).performAll later :=
  List.foldl_append

theorem signal_eq {operation other : Operation}
    (answerEq : second.answer other = first.answer operation)
    (same : (first.perform operation).SameSignal (second.perform other)) :
    second.signal other = first.signal operation := by
  obtain ⟨levels, telemetry, machineEq⟩ := same.machines
  rw [signal, signal, answerEq, machineEq]
  rfl

end VirtualMachine

/-- The items that have a mark. -/
def marked {Item : Type} (marks : List Bool) (items : List Item) : List Item :=
  ((marks.zip items).filter Prod.fst).map Prod.snd

theorem marked_append {Item : Type} {marks moreMarks : List Bool} {items moreItems : List Item}
    (lengthEq : marks.length = items.length) :
    marked (marks ++ moreMarks) (items ++ moreItems) =
      marked marks items ++ marked moreMarks moreItems := by
  rw [marked, List.zip_append lengthEq, List.filter_append, List.map_append]
  rfl

theorem mem_of_mem_marked {Item : Type} {marks : List Bool} {items : List Item} {item : Item}
    (member : item ∈ marked marks items) : item ∈ items := by
  obtain ⟨⟨mark, found⟩, kept, rfl⟩ := List.mem_map.mp member
  exact (List.of_mem_zip (List.mem_filter.mp kept).1).2

theorem marked_replicate_false {Item : Type} (count : Nat) (items : List Item) :
    marked (List.replicate count false) items = [] := by
  rw [marked, List.map_eq_nil_iff, List.filter_eq_nil_iff]
  rintro ⟨mark, item⟩ member
  rw [List.eq_of_mem_replicate (List.of_mem_zip member).1]
  exact Bool.false_ne_true

/-- A part of a run that is kept, or that could be left out. -/
inductive Passage where
  | kept (operation : Operation)
  /-- A frame or block that is asked of an idle machine. -/
  | idle (operation : Operation)
  /-- A frame or block that is asked for while the lock is held. -/
  | contended (operation : Operation)
  /-- Someone takes a free lock and dies. -/
  | death
  /-- A holder of the lock dies and does not release it. -/
  | holderDeath
  /-- A stop, frames and blocks that are asked for then, and a start. -/
  | pause (asked : List Operation)

namespace Passage

def whole : Passage → List Operation
  | kept operation | idle operation | contended operation => [operation]
  | death | holderDeath => [.poison]
  | pause asked => .stop :: (asked ++ [.start (.ok ())])

/-- What is left of a passage. -/
def rest : Passage → List Operation
  | kept operation => [operation]
  | idle _ | contended _ | death | pause _ => []
  | holderDeath => [.release]

/-- Which operations of a passage are left; of the death of a holder, its release is. -/
def marks : Passage → List Bool
  | kept _ | holderDeath => [true]
  | idle _ | contended _ | death => [false]
  | pause asked => List.replicate (asked.length + 2) false

/-- Whether the displays go another way if the passage is left out. -/
def movesDisplays : Passage → Bool
  | idle _ | pause _ => true
  | kept _ | contended _ | death | holderDeath => false

/-- Whether a passage is what it is said to be when a machine comes to it. -/
def Fits (virtual : VirtualMachine) : Passage → Prop
  | kept _ | holderDeath => True
  | idle operation =>
      operation.plays = true ∧ virtual.core.machine.isIdle = true
  | contended operation => operation.plays = true ∧ virtual.core.held = true
  | death => virtual.core.held = false
  | pause asked =>
      virtual.isRunning = true ∧ ∀ operation ∈ asked, operation.plays = true

def AllFit : VirtualMachine → List Passage → Prop
  | _, [] => True
  | virtual, passage :: others =>
      passage.Fits virtual ∧ AllFit (virtual.performAll passage.whole) others

theorem length_marks (passage : Passage) : passage.marks.length = passage.whole.length := by
  cases passage with
  | kept | idle | contended | death | holderDeath => rfl
  | pause asked => simp [marks, whole]

end Passage

namespace VirtualMachine

variable {virtual first second : VirtualMachine} {passage : Passage}

theorem standsStill_of_idle {asked : List Operation}
    (plays : ∀ operation ∈ asked, operation.plays = true)
    (idle : virtual.core.machine.isIdle = true) :
    virtual.SameSignal (virtual.performAll asked) ∧
      ∀ played ∈ asked.zip (virtual.signals asked), played.2.answer = played.1.silence := by
  induction asked generalizing virtual with
  | nil => exact ⟨.refl virtual, by simp⟩
  | cons operation others ih =>
      obtain ⟨answerEq, still⟩ := silent_of_idle idle (plays operation (List.mem_cons_self ..))
      obtain ⟨restStill, restSilent⟩ :=
        ih (fun other member => plays other (List.mem_cons_of_mem _ member))
          (still.machines.isIdle_eq.trans idle)
      refine ⟨still.trans restStill, ?_⟩
      intro played member
      rcases List.mem_cons.mp member with rfl | later
      · exact answerEq
      · exact restSilent played later

theorem isIdle_stop (virtual : VirtualMachine) : virtual.stop.core.machine.isIdle = true :=
  rfl

/-- A machine that ran is started again where it was stopped. -/
theorem sameSignal_pause (inStep : virtual.InStep) (running : virtual.isRunning = true)
    {asked : List Operation} (plays : ∀ operation ∈ asked, operation.plays = true) :
    virtual.SameSignal (virtual.performAll (.stop :: (asked ++ [.start (.ok ())]))) := by
  have still := (standsStill_of_idle plays virtual.isIdle_stop).1
  have restarted := still.perform (.start (.ok ()))
  change virtual.SameSignal (virtual.stop.performAll (asked ++ [.start (.ok ())]))
  rw [performAll_concat]
  refine SameSignal.trans ?_ restarted
  have isOpenEq : virtual.isOpen = true := inStep.trans running
  have runStateEq : virtual.core.machine.runState = .running := beq_iff_eq.mp running
  refine ⟨⟨.silence, virtual.core.machine.telemetry, ?_⟩, rfl, isOpenEq.symm⟩
  rw [Machine.withDisplays, runStateEq]
  rfl

/-- A passage that is left out leaves a machine as it would be without it. -/
theorem SameSignal.behind (same : first.SameSignal second) (inStep : first.InStep)
    (fits : passage.Fits first) :
    (first.performAll passage.whole).SameSignal (second.performAll passage.rest) := by
  cases passage with
  | kept operation => exact same.perform operation
  | idle operation => exact (silent_of_idle fits.2 fits.1).2.symm.trans same
  | contended operation =>
      have unchanged : first.performAll [operation] = first := (silent_of_held fits.2 fits.1).2
      rw [Passage.whole, unchanged]
      exact same
  | death => exact ⟨same.machines, same.held_eq.trans fits, same.isOpen_eq⟩
  | holderDeath => exact ⟨same.machines, rfl, same.isOpen_eq⟩
  | pause asked => exact (sameSignal_pause inStep fits.1 fits.2).symm.trans same

theorem SameSignal.signals_rest (same : first.SameSignal second) (inStep : first.InStep)
    (fits : passage.Fits first) :
    second.signals passage.rest = marked passage.marks (first.signals passage.whole) := by
  have behind := same.behind inStep fits
  cases passage with
  | kept operation => exact congrArg (· :: []) (signal_eq (same.answer operation) behind)
  | holderDeath => exact congrArg (· :: []) (signal_eq rfl behind)
  | idle | contended | death => rfl
  | pause asked => exact (marked_replicate_false _ _).symm

/-- What is left out of a run was silent. -/
theorem silent_of_leftOut (fits : passage.Fits first) :
    ∀ played ∈ marked (passage.marks.map not)
        (passage.whole.zip (first.signals passage.whole)),
      played.1.plays = true → played.2.answer = played.1.silence := by
  intro played member plays
  cases passage with
  | kept | holderDeath => cases member
  | idle operation =>
      rw [List.mem_singleton.mp (mem_of_mem_marked member)]
      exact (silent_of_idle fits.2 fits.1).1
  | contended operation =>
      rw [List.mem_singleton.mp (mem_of_mem_marked member)]
      exact (silent_of_held fits.2 fits.1).1
  | death =>
      rw [List.mem_singleton.mp (mem_of_mem_marked member)] at plays
      cases plays
  | pause asked =>
      have silent := (standsStill_of_idle fits.2 first.isIdle_stop).2
      have inRun := mem_of_mem_marked member
      rw [Passage.whole, signals, List.zip_cons_cons] at inRun
      -- neither the stop in front nor the start behind plays anything
      rcases List.mem_cons.mp inRun with rfl | meanwhile
      · cases plays
      · rw [signals_append, List.zip_append (length_signals _ _).symm] at meanwhile
        rcases List.mem_append.mp meanwhile with inAsked | atStart
        · exact silent played inAsked
        · rw [List.mem_singleton.mp atStart] at plays
          cases plays

theorem SameSignal.run (same : first.SameSignal second) (inStep : first.InStep)
    {passages : List Passage} (fit : Passage.AllFit first passages) :
    second.signals (passages.flatMap Passage.rest) =
        marked (passages.flatMap Passage.marks)
          (first.signals (passages.flatMap Passage.whole)) ∧
      (∀ played ∈ marked ((passages.flatMap Passage.marks).map not)
          ((passages.flatMap Passage.whole).zip
            (first.signals (passages.flatMap Passage.whole))),
        played.1.plays = true → played.2.answer = played.1.silence) ∧
      (first.performAll (passages.flatMap Passage.whole)).SameSignal
        (second.performAll (passages.flatMap Passage.rest)) := by
  -- the two machines differ in their displays at most, and the first one stays in step
  induction passages generalizing first second with
  | nil => exact ⟨rfl, by simp [marked], same⟩
  | cons passage others ih =>
      obtain ⟨fits, othersFit⟩ := fit
      obtain ⟨signalsEq, silent, behind⟩ :=
        ih (same.behind inStep fits) (inStep.performAll passage.whole) othersFit
      have marksEq : passage.marks.length = (first.signals passage.whole).length := by
        rw [length_signals, passage.length_marks]
      simp only [List.flatMap_cons, signals_append, performAll_append]
      refine ⟨?_, ?_, behind⟩
      · rw [marked_append marksEq, ← signalsEq, same.signals_rest inStep fits]
      · rw [List.zip_append (length_signals _ _).symm, List.map_append,
          marked_append (by simp [passage.length_marks, length_signals])]
        intro played member
        rcases List.mem_append.mp member with here | later
        · exact silent_of_leftOut fits played here
        · exact silent played later

/-- Where the displays go the same way, nothing at all tells the difference. -/
theorem machine_eq_behind (same : first.SameSignal second)
    (machineEq : second.core.machine = first.core.machine) (fits : passage.Fits first)
    (still : passage.movesDisplays = false) :
    (second.performAll passage.rest).core.machine =
      (first.performAll passage.whole).core.machine := by
  cases passage with
  | kept operation =>
      have secondEq := second.machine_perform operation
      rw [same.events_eq, machineEq] at secondEq
      exact secondEq.trans (first.machine_perform operation).symm
  | contended operation =>
      have unchanged : first.performAll [operation] = first := (silent_of_held fits.2 fits.1).2
      rw [Passage.whole, unchanged]
      exact machineEq
  | death | holderDeath => exact machineEq
  | idle | pause => cases still

theorem machine_eq_run (same : first.SameSignal second) (inStep : first.InStep)
    (machineEq : second.core.machine = first.core.machine) {passages : List Passage}
    (fit : Passage.AllFit first passages)
    (still : ∀ passage ∈ passages, passage.movesDisplays = false) :
    (second.performAll (passages.flatMap Passage.rest)).core.machine =
      (first.performAll (passages.flatMap Passage.whole)).core.machine := by
  induction passages generalizing first second with
  | nil => exact machineEq
  | cons passage others ih =>
      obtain ⟨fits, othersFit⟩ := fit
      simp only [List.flatMap_cons, performAll_append]
      refine ih (same.behind inStep fits) (inStep.performAll passage.whole) ?_ othersFit ?_
      · exact machine_eq_behind same machineEq fits (still passage (List.mem_cons_self ..))
      · exact fun other member => still other (List.mem_cons_of_mem _ member)

/--
Leave out of a run, from the creation of a machine on, frames and blocks that were asked of
an idle machine or while the lock was held, deaths of holders, and stops of a running machine
with what was asked then and the start behind them.  What is left is answered as before and
leaves the same variables, filter memories and sources and the same number of aborted ticks
behind every operation.  The frames and blocks that are left out were silent.  If no idle
machine was asked and none was stopped, the input peaks and the telemetry are the same, too.
-/
theorem pauses_unheard (config : EngineConfig) {passages : List Passage}
    (fit : Passage.AllFit (create config) passages) :
    let virtual := create config
    let whole := passages.flatMap Passage.whole
    let rest := passages.flatMap Passage.rest
    let marks := passages.flatMap Passage.marks
    virtual.signals rest = marked marks (virtual.signals whole) ∧
      (∀ played ∈ marked (marks.map not) (whole.zip (virtual.signals whole)),
        played.1.plays = true → played.2.answer = played.1.silence) ∧
      (virtual.performAll whole).SameSignal (virtual.performAll rest) ∧
      ((∀ passage ∈ passages, passage.movesDisplays = false) →
        (virtual.performAll rest).core.machine = (virtual.performAll whole).core.machine) := by
  intro virtual whole rest marks
  have inStep := inStep_create config
  obtain ⟨signalsEq, silent, same⟩ := (SameSignal.refl virtual).run inStep fit
  exact ⟨signalsEq, silent, same, machine_eq_run (.refl virtual) inStep rfl fit⟩

/-- A machine that counts its ticks, and is asked in vain in all these ways. -/
theorem pauses_unheard_counter :
    let passages : List Passage :=
      [.kept (.load ⟨⟨[.read 0, .load 1, .operate .add, .write 0], 0⟩, .ofNames ["n"]⟩),
        .idle (.tick .silence), .kept (.start (.ok ())), .kept (.tick .silence),
        .kept .acquire, .contended (.tick .silence), .holderDeath, .death,
        .pause [.tick .silence, .pull #[] 4], .kept (.tick .silence)]
    Passage.AllFit (create .standard) passages ∧
      ((create .standard).signals (passages.flatMap Passage.rest)).map
          (fun signal => signal.table.get? 0) =
        [some 0, some 0, some 1, some 1, some 1, some 2] := by
  intro passages
  have fit : Passage.AllFit (create .standard) passages :=
    ⟨trivial, ⟨rfl, rfl⟩, trivial, trivial, trivial, ⟨rfl, rfl⟩, trivial, rfl,
      ⟨rfl, by simp [Operation.plays]⟩, trivial, trivial⟩
  refine ⟨fit, ?_⟩
  rw [(pauses_unheard .standard fit).1]
  decide +kernel

end VirtualMachine

end SignalPatch
