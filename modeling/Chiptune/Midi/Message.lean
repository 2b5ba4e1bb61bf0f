/-!
# MIDI messages

What a track of a MIDI file is made of. Each message has the time since the one before it, in
ticks.
-/

namespace Chiptune
namespace Midi

/-- A message and the ticks since the message before it. -/
inductive Message where
  | trackName (name : String) (time : Int)
  | setTempo (tempo time : Int)
  | noteOn (channel note velocity time : Int)
  | noteOff (channel note velocity time : Int)
  | endOfTrack (time : Int)
  deriving DecidableEq, Repr

/-- The ticks since the message before. -/
def Message.time : Message → Int
  | trackName _ t => t
  | setTempo _ t => t
  | noteOn _ _ _ t => t
  | noteOff _ _ _ t => t
  | endOfTrack t => t

end Midi
end Chiptune
