import Chiptune.Channel
import Chiptune.Rendering.Buffer
import Chiptune.Rendering.Envelope
import Chiptune.Report
import Chiptune.Settings
import Chiptune.Waveform

/-!
# The sound of a note

A note takes a whole number of samples. Its generator gives a signal at its frequency, and an envelope
the amplitude; the two are multiplied and rounded to a word of 32 bits at each sample. A note without
a generator, or too high for its frequency to be a float, has no sound, and why it has none is a
refusal that concerns no other note.
-/

namespace Chiptune

/-- What is the same for all notes of a piece while it is rendered. -/
structure Setup where
  tempo : Number
  length : Nat
  channelCount : Nat
  settings : Settings
  registry : Registry Generator

namespace Rendering

/-- How many samples a time takes, rounded to the nearest. -/
def noteSamples (seconds rate : Number) : Except Error Int := do (← seconds.mul rate).round

/-- The frequency of a note, or the refusal of its octave. -/
def noteFrequency (note : Note) : Except Error Float :=
  match note.frequency with
  | .ok frequency => .ok frequency
  | .error _ => .error (.stating note.octave (.octaveOutOfRange note.octave))

/-- Whether a refusal only silences the note that it concerns. -/
def isSilencing : Error → Bool
  | .unknownTimbre .. | .octaveOutOfRange _ => true
  | _ => false

/-- The place of a sample as a float. -/
def position (index : Nat) : Float := index.toUInt64.toFloat

/-- A float as a sample of 32 bits, rounded to the nearest whole number, ties to even. What does
not fit becomes the least of them. -/
def toSample (x : Float) : Int32 :=
  match Binary64.view x with
  | .finite d =>
    let n := d.round
    if -0x80000000 ≤ n ∧ n < 0x80000000 then Int32.ofInt n else Int32.minValue
  | _ => Int32.minValue

/-- The length of a fade. One that is not positive has no effect, however far below zero it is. -/
def fadeLength (samples : Int) : Except Error Float :=
  if 0 < samples then Binary64.ofInt samples else .ok 0

/-- The first values of an envelope that is given in whole numbers of samples. -/
def envelopeValues [Room] (count span : Int) (amplitude : Number) (attack decay : Int) :
    Except Error (List Float) := do
  requireRange span
  let count ← Binary64.ofInt count
  let amplitude ← amplitude.toFloat
  let places ← placesOf .float span
  let attack ← fadeLength attack
  let decay ← fadeLength decay
  let shape : Envelope Float := ⟨count, amplitude, attack, decay⟩
  return (List.range places).map fun i => shape.value (position i)

/-- The generator of a note and its frequency. -/
def voice (registry : Registry Generator) (note : Note) : Except Error (Generator × Float) := do
  let generator ← registry.get note.timbre
  return (generator, ← noteFrequency note)

/-- The amplitude of a note: half the range of a sample at full volume, shared out among the
channels. -/
def amplitude (note : Note) (channelCount : Nat) : Except Error Float := do
  let share ← Binary64.ofQuotient note.volume Note.fullVolume
  Binary64.divide (255.0 * 0.5 * share) (← Binary64.ofInt channelCount)

/-- The samples of a note, by their distance from its start. -/
def sound (setup : Setup) (note : Note) (count : Int) (generator : Generator) (frequency : Float) :
    Except Error (Nat → Int32) := do
  let peak ← amplitude note setup.channelCount
  let attack ← setup.settings.attackSamples
  let decay ← setup.settings.decaySamples
  let shape : Envelope Float :=
    ⟨← Binary64.ofInt count, peak, ← fadeLength attack, ← fadeLength decay⟩
  let rate ← setup.settings.sampleRate.toFloat
  let signal ← generator (.real frequency)
  return fun i => toSample (signal (position i / rate) * shape.value (position i))

end Rendering

end Chiptune
