import Chiptune.Binary64.PowerOfTwo
import Chiptune.Number
import Chiptune.Pitch

/-!
# Notes

One event of a channel: a tone or a rest, how long it lasts, how loud it is and which generator
sounds it. A note has a duration of at least one, and a rest has volume zero; both are part of
the type.
-/

namespace Chiptune

/-- One sounding or resting event. The duration is a denominator: 4 is a quarter note. -/
structure Note where
  scaleIndex : Fin 12
  duration : Nat
  octave : Int
  volume : Int
  timbre : String
  isRest : Bool
  duration_pos : 0 < duration
  volume_eq_zero_of_isRest : isRest = true → volume = 0
  deriving DecidableEq, Repr

namespace Note

/-- The volume at which the amplitude is full. -/
def fullVolume : Nat := 255

/-- A note from its parts. A rest is silenced whatever volume is given. -/
def make (scaleIndex duration octave volume : Int) (timbre : String) (isRest : Bool) :
    Except Error Note := do
  let index ← Pitch.ofIndex scaleIndex
  if h : duration < 1 then
    throw (.stating duration (.duration duration))
  else
    return {
      scaleIndex := index
      duration := duration.toNat
      octave := octave
      volume := if isRest then 0 else volume
      timbre := timbre
      isRest := isRest
      duration_pos := by omega
      volume_eq_zero_of_isRest := fun rest => by simp [rest]
    }

/-- A note from what its name spells. An index outside the octave moves the octave by one. -/
def ofSpelling (spelling : Spelling) (duration octave volume : Int) (timbre : String) :
    Except Error Note :=
  let index := spelling.scaleIndex
  if index < 0 then make (index + 12) duration (octave - 1) volume timbre spelling.isRest
  else if index ≥ 12 then make (index - 12) duration (octave + 1) volume timbre spelling.isRest
  else make index duration octave volume timbre spelling.isRest

/-- A note from its name: `B#` in octave 4 is `C` in octave 5. -/
def ofName (name : String) (duration octave volume : Int) (timbre : String) : Except Error Note := do
  ofSpelling (← Pitch.spelling name) duration octave volume timbre

/-- Whether two notes are the same to a listener: whether one of them is marked as a rest does
not count. -/
def alike (a b : Note) : Bool :=
  a.scaleIndex == b.scaleIndex && a.duration == b.duration && a.octave == b.octave &&
    a.volume == b.volume && a.timbre == b.timbre

/-- The name of a note, with sharps only. -/
def name (note : Note) : String := if note.isRest then "R" else Pitch.name note.scaleIndex

/-- The semitones from the `A` of octave 4 up to the note. -/
def semitones (note : Note) : Int := (note.scaleIndex.val - 9 : Int) + 12 * (note.octave - 4)

/-- The equal-tempered frequency, with 440 Hz for the `A` of octave 4. -/
def frequency (note : Note) : Except Error Float := do
  let octaves ← Binary64.ofQuotient note.semitones 12
  match Binary64.powTwo? octaves with
  | some factor => return 440.0 * factor
  | none => throw (.arithmetic .powerTooLarge)

/-- The MIDI number of a note, with 60 for the `C` of octave 4. It may be outside 0 to 127. -/
def midiPitch (note : Note) : Int := 12 * (note.octave + 1) + note.scaleIndex.val

/-- The length of a note in seconds, at a tempo in quarter notes per minute. -/
def seconds (note : Note) (tempo : Number) : Except Error Float := do
  let beats ← Binary64.divide 4.0 (← Binary64.ofInt note.duration)
  let beat ← Binary64.divide 60.0 (← tempo.toFloat)
  return beats * beat

/-- Whether every number of a note can be written. -/
def isWritable (note : Note) : Bool :=
  Decimal.isWritable note.octave && Decimal.isWritable note.duration &&
    Decimal.isWritable note.volume

/-- A note as messages show it. -/
def text (note : Note) : String :=
  note.name ++ toString note.octave ++ " /" ++ toString note.duration ++ " vol=" ++
    toString note.volume ++ " " ++ note.timbre

/-- A note as messages show it, unless one of its numbers has too many digits. -/
def describe (note : Note) : Except Error String :=
  if note.isWritable then .ok note.text else .error .tooManyDigits

end Note

end Chiptune
