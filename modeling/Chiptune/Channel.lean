import Chiptune.Note

/-!
# Channels

One monophonic part: a name, and notes that are played back to back.
-/

namespace Chiptune

/-- One part of a score, its notes in playing order. -/
structure Channel where
  name : String
  notes : Array Note
  deriving DecidableEq, Repr

namespace Channel

/-- A channel without notes. -/
def empty (name : String) : Channel := ⟨name, #[]⟩

/-- Adds a note at the end. -/
def push (channel : Channel) (note : Note) : Channel :=
  { channel with notes := channel.notes.push note }

/-- Adds lengths in playing order, from the left. -/
def secondsFrom (tempo : Number) : Float → List Note → Except Error Float
  | total, [] => .ok total
  | total, note :: rest => do
    let length ← note.seconds tempo
    secondsFrom tempo (total + length) rest

/-- The playing time of a channel in seconds, at a tempo in quarter notes per minute. -/
def seconds (channel : Channel) (tempo : Number) : Except Error Float :=
  secondsFrom tempo 0 channel.notes.toList

end Channel

end Chiptune
