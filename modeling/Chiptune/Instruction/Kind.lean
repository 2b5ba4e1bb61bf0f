/-!
# Kinds of instruction

A channel is written in eleven kinds of instruction. The default table lists them in the order of
their claims on the text: `O2D` sets an octave and then plays a note, because the octave claims
the digit before the note can.
-/

namespace Chiptune

/-- What an instruction does. -/
inductive Kind where
  /-- `@(name)`: the generator of the notes that follow. -/
  | timbre
  /-- `V` and a number: the volume. -/
  | volume
  /-- `(` and a number: louder by so much. -/
  | volumeUp
  /-- `)` and a number: quieter by so much. -/
  | volumeDown
  /-- `O` and a number: the octave. -/
  | octave
  /-- `<`: one octave up. -/
  | octaveUp
  /-- `>`: one octave down. -/
  | octaveDown
  /-- `L` and a number: the duration of notes without one of their own. -/
  | length
  /-- `T` and a number: the tempo, which belongs to the whole score. -/
  | tempo
  /-- A number and a note: a note with a duration of its own. -/
  | timedNote
  /-- A note. -/
  | note
  deriving DecidableEq, Repr

namespace Kind

/-- The kinds in the order of their claims on the text. -/
def table : List Kind :=
  [timbre, volume, volumeUp, volumeDown, octave, octaveUp, octaveDown, length, tempo, timedNote,
    note]

/-- Every kind is in the table. -/
theorem mem_table (kind : Kind) : kind ∈ table := by cases kind <;> decide

/-- The name of a kind. -/
def name : Kind → String
  | timbre => "timbre"
  | volume => "volume"
  | volumeUp => "volume_up"
  | volumeDown => "volume_down"
  | octave => "octave"
  | octaveUp => "octave_up"
  | octaveDown => "octave_down"
  | length => "length"
  | tempo => "tempo"
  | timedNote => "timed_note"
  | note => "note"

/-- The kind with a name. -/
def ofName? (name : String) : Option Kind := table.find? fun kind => kind.name == name

theorem ofName?_name (kind : Kind) : ofName? kind.name = some kind := by cases kind <;> decide

end Kind

end Chiptune
