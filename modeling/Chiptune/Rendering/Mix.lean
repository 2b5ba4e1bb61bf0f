import Chiptune.Rendering.Sound
import Chiptune.Score
import Chiptune.Stretch

/-!
# Rendering a piece

All channels are added up in one buffer of words of 32 bits. The notes of a channel are played back to
back from its start, each over a whole number of samples; a note that stays silent is reported and
takes its time like any other. The sums are cut once, at the end, to the range of a sample. A
rendering says which notes had to stay silent.
-/

namespace Chiptune

/-- A piece while it is mixed: the sum of what has been added at each place, and why notes are
silent. -/
structure Mix where
  sums : Array Int32
  errors : List Error

namespace Mix

open Rendering

/-- A buffer to which nothing has been added yet. -/
def silence (length : Nat) : Mix := ⟨Array.replicate length 0, []⟩

/-- Adds the values of a note to a stretch of the sums. -/
def add (mix : Mix) (offset span : Nat) (value : Nat → Int32) : Mix :=
  { mix with sums := changeStretch mix.sums offset span fun i sum => sum + value i }

/-- Adds the notes of a channel from an offset on, up to the end of the buffer. -/
def addNotes (setup : Setup) (channel : String) (offset : Nat) (mix : Mix) :
    List Note → Report Mix
  | [] => pure mix
  | note :: later =>
    if setup.length ≤ offset then pure mix
    else do
      let seconds ← note.seconds setup.tempo
      let count ← noteSamples (.real seconds) setup.settings.sampleRate
      let span := min count.toNat (setup.length - offset)
      let next := offset + count.toNat
      if note.volume = 0 ∨ span = 0 then
        mix.addNotes setup channel next later
      else
        match voice setup.registry note with
        | .ok (generator, frequency) =>
          let value ← sound setup note count generator frequency
          (mix.add offset span value).addNotes setup channel next later
        | .error cause =>
          if isSilencing cause then
            Report.tell (.noteSilenced channel cause note)
            { mix with errors := mix.errors ++ [cause] }.addNotes setup channel next later
          else
            throw cause

/-- Adds channels in order, each from the start of the buffer. -/
def addChannels (setup : Setup) (mix : Mix) : List Channel → Report Mix
  | [] => pure mix
  | channel :: rest => do
    let next ← mix.addNotes setup channel.name 0 channel.notes.toList
    next.addChannels setup rest

end Mix

/-- A piece in samples, and why notes of it are silent. -/
structure Rendering where
  samples : Array Int8
  sampleRate : Number
  errors : List Error

namespace Rendering

/-- Whether a sum is outside the range of a sample. -/
def isClipped (sum : Int32) : Bool := sum < -128 || 127 < sum

/-- A sum cut to the range of a sample. -/
def clip (sum : Int32) : Int8 :=
  if sum < -128 then -128 else if 127 < sum then 127 else sum.toInt8

/-- Renders channels into a buffer of a given length. -/
def ofChannels [Room] (registry : Registry Generator) (settings : Settings) (tempo length : Number)
    (channels : List Channel) : Report Rendering := do
  if tempo.isNotPositive then
    throw .tempoNotPositive
  let size ← bufferSize length
  let setup : Setup :=
    { tempo, length := size, channelCount := channels.length, settings, registry }
  let mixed ← (Mix.silence size).addChannels setup channels
  let clipped := mixed.sums.countP isClipped
  if clipped ≠ 0 then
    Report.tell (.samplesClipped clipped)
  return {
    samples := mixed.sums.map clip
    sampleRate := settings.sampleRate
    errors := mixed.errors
  }

/-- Whether a note had to stay silent. -/
def degraded (rendering : Rendering) : Bool := !rendering.errors.isEmpty

/-- The playing time of a number of samples, in seconds. -/
def duration (samples : Nat) (rate : Number) : Except Error Float :=
  match rate.measure with
  | .exact n =>
    if n = 0 then .error (.arithmetic .divisionByZero)
    else Binary64.ofQuotient (if n < 0 then -samples else samples) n.natAbs
  | .approximate x => do Binary64.divide (← Binary64.ofInt samples) x

/-- The playing time of a rendering, in seconds. -/
def seconds (rendering : Rendering) : Except Error Float :=
  duration rendering.samples.size rendering.sampleRate

end Rendering

/-- Renders a score into a buffer that holds all of it. -/
def Score.render [Room] (score : Score) (registry : Registry Generator) : Report Rendering := do
  let length ← score.bufferLength
  Rendering.ofChannels registry score.settings score.tempo.beats length score.channels

end Chiptune
