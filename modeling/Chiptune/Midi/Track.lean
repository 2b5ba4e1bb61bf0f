import Chiptune.Midi.Message
import Chiptune.Report
import Chiptune.Score

/-!
# MIDI tracks

A channel becomes a track: its name, if it has one, then an on and an off for every note that
sounds, and the end. Positions are added up in fractions of a tick and rounded for every event, so
odd durations do not drift. Rests, notes without volume and pitches that MIDI has not take their
time and make no sound.
-/

namespace Chiptune
namespace Midi

/-- The ticks of a quarter note in a file. -/
def ticksPerBeat : Int := 480

/-- The length of a note in ticks: a quarter note is one beat. -/
def noteTicks (note : Note) (ticksPerBeat : Int) : Except Error Float := do
  let whole := (← Binary64.ofInt ticksPerBeat) * 4.0
  Binary64.divide whole (← Binary64.ofInt note.duration)

/-- The velocity of a note, from 1 to 127, for a volume from 0 to 255. -/
def velocity (note : Note) : Except Error Int := do
  let share ← Binary64.ofQuotient (note.volume * 127) Note.fullVolume
  return max 1 (min 127 (← Binary64.toInt Binary64.Dyadic.round share))

/-- A position in ticks, rounded to a whole one. -/
def tick (position : Float) : Except Error Int := Binary64.toInt Binary64.Dyadic.round position

/-- The messages of the notes from a position on, and the end of the track. `last` is the tick of
the message before. -/
def trackFrom (channel ticksPerBeat : Int) (position : Float) (last : Int) :
    List Note → Report (List Message)
  | [] => do return [.endOfTrack (max 0 ((← tick position) - last))]
  | note :: rest => do
    let start ← tick position
    let next := position + (← noteTicks note ticksPerBeat)
    let stop ← tick next
    if note.isRest ∨ note.volume ≤ 0 then
      trackFrom channel ticksPerBeat next last rest
    else if note.midiPitch < 0 ∨ 127 < note.midiPitch then
      Report.tell (.noteSkipped note)
      trackFrom channel ticksPerBeat next last rest
    else
      let velocity ← velocity note
      if channel < 0 ∨ 15 < channel then
        throw .midiChannel
      let later ← trackFrom channel ticksPerBeat next stop rest
      return .noteOn channel note.midiPitch velocity (start - last) ::
        .noteOff channel note.midiPitch 0 (stop - start) :: later

/-- The track of a channel. -/
def track (notes : List Note) (channel : Int) (name : String) (ticksPerBeat : Int) :
    Report (List Message) := do
  let messages ← trackFrom channel ticksPerBeat 0 0 notes
  return if name = "" then messages else .trackName name 0 :: messages

/-- The microseconds of a quarter note, as the tempo of a file. -/
def tempo (beats : Number) : Except Error Int := do
  let microseconds ← Binary64.divide 60000000.0 (← beats.toFloat)
  let value ← Binary64.toInt Binary64.Dyadic.round (microseconds * 4.0 / 4.0)
  if 0 ≤ value ∧ value ≤ 0xffffff then
    return value
  else
    throw .midiTempo

/-- The tracks of channels, from a number on. The sixteen MIDI channels are used in turn. -/
def channelTracks (ticksPerBeat : Int) : Nat → List Channel → Report (List (List Message))
  | _, [] => pure []
  | index, channel :: rest => do
    let messages ← track channel.notes.toList (index % 16 : Nat) channel.name ticksPerBeat
    return messages :: (← channelTracks ticksPerBeat (index + 1) rest)

/-- The tracks of a score: the tempo first, then one for every channel. -/
def tracks (score : Score) (ticksPerBeat : Int) : Report (List (List Message)) := do
  let value ← tempo score.tempo.beats
  return [.setTempo value 0] :: (← channelTracks ticksPerBeat 0 score.channels)

end Midi
end Chiptune
