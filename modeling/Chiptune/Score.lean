import Chiptune.Channel
import Chiptune.Settings

/-!
# Scores

A compiled piece: one tempo for all of it, its channels in order, and the settings of the
synthesis. A tempo that is zero or negative is refused.
-/

namespace Chiptune

/-- A tempo in quarter notes per minute. -/
structure Tempo where
  beats : Number
  positive : beats.isNotPositive = false

namespace Tempo

/-- A tempo from a number. -/
def make (beats : Number) : Except Error Tempo :=
  if h : beats.isNotPositive = true then .error .tempoNotPositive
  else .ok ⟨beats, Number.isNotPositive_eq_false h⟩

/-- The tempo of a score that sets none. -/
def standard : Tempo := ⟨.whole 100, rfl⟩

end Tempo

/-- A compiled piece. -/
structure Score where
  tempo : Tempo
  channels : List Channel
  settings : Settings

namespace Score

/-- A score without channels. -/
def empty (settings : Settings) : Score := ⟨.standard, [], settings⟩

/-- Sets the tempo of the whole piece. -/
def setTempo (score : Score) (beats : Number) : Except Error Score := do
  return { score with tempo := ← Tempo.make beats }

/-- Adds a channel behind the others. -/
def addChannel (score : Score) (channel : Channel) : Score :=
  { score with channels := score.channels ++ [channel] }

/-- Adds a note to the channel at a place. -/
def addNote (score : Score) (place : Nat) (note : Note) : Except Error Score :=
  if place < score.channels.length then
    .ok { score with channels := score.channels.modify place (·.push note) }
  else
    .error .noSuchChannel

/-- The greatest of some lengths; the first of those that are equally great. -/
def longest : List Float → Float
  | [] => 0
  | first :: rest => rest.foldl (fun best length => if best < length then length else best) first

/-- The playing time of the longest channel, in seconds. -/
def seconds (score : Score) : Except Error Float := do
  return longest (← score.channels.mapM fun channel => channel.seconds score.tempo.beats)

/-- How many samples the piece takes: whole seconds, enough for the longest channel, and the
padding. It is a whole number unless the sample rate is none. -/
def bufferLength (score : Score) : Except Error Number := do
  let whole ← Binary64.toInt Binary64.Dyadic.ceil (← score.seconds)
  let playing ← score.settings.sampleRate.mul (.whole whole)
  playing.add (.whole (← score.settings.paddingSamples))

end Score

end Chiptune
