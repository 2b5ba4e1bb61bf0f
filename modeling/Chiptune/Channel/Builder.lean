import Chiptune.Channel
import Chiptune.Instruction.Schedule
import Chiptune.Report
import Chiptune.Text.Lines

/-!
# Building a channel

A builder holds a channel and the running state that its notes take over: octave, volume, duration
and timbre. Instructions change that state or add a note to the channel. The first instruction
that fails ends the work on a text; what was done before it stays done. Volumes are not
bounded.
-/

namespace Chiptune

/-- What a note takes over from the instructions before it. -/
structure Context where
  octave : Int := 4
  volume : Int := 200
  duration : Int := 4
  timbre : String := "sin"
  deriving DecidableEq, Repr

/-- A channel under construction. -/
structure Builder where
  channel : Channel
  context : Context := {}
  table : List Kind := Kind.table
  deriving Repr

/-- How far a builder got: its state, the events on the way and the failure that ended the work,
if one did. -/
structure Progress where
  builder : Builder
  log : List Event := []
  failure? : Option Error := none

namespace Progress

/-- Goes on from where a builder got to, unless it failed. -/
def andThen (progress : Progress) (next : Builder → Progress) : Progress :=
  match progress.failure? with
  | some _ => progress
  | none =>
    let later := next progress.builder
    { later with log := progress.log ++ later.log }

end Progress

namespace Builder

/-- A builder of an empty channel. -/
def start (name : String) (table : List Kind) : Builder := { channel := .empty name, table }

/-- Fails and changes nothing. -/
def refuse (builder : Builder) (error : Error) : Progress := { builder, failure? := some error }

/-- Reports an event; where it cannot be put into words, the work fails. -/
def tell (builder : Builder) (event : Event) : Progress :=
  if event.isWritable then { builder, log := [event] } else builder.refuse .tooManyDigits

/-- Changes the context and reports it. The change stays even where the report fails. -/
def setContext (builder : Builder) (context : Context) (event : Event) : Progress :=
  Builder.tell { builder with context } event

/-- Sets the octave. -/
def setOctave (builder : Builder) (octave : Int) : Progress :=
  builder.setContext { builder.context with octave } (.octaveSet octave)

/-- Moves the octave. -/
def addOctave (builder : Builder) (delta : Int) : Progress :=
  let octave := builder.context.octave + delta
  builder.setContext { builder.context with octave } (.octaveChanged delta octave)

/-- Sets the duration of the notes without one of their own. Any number is taken: only a note
asks whether it is a duration. -/
def setDuration (builder : Builder) (duration : Int) : Progress :=
  builder.setContext { builder.context with duration } (.durationSet duration)

/-- Sets the timbre. -/
def setTimbre (builder : Builder) (timbre : String) : Progress :=
  builder.setContext { builder.context with timbre } (.timbreSet timbre)

/-- Sets the volume. -/
def setVolume (builder : Builder) (volume : Int) : Progress :=
  builder.setContext { builder.context with volume } (.volumeSet volume)

/-- Changes the volume. -/
def addVolume (builder : Builder) (delta : Int) : Progress :=
  let volume := builder.context.volume + delta
  builder.setContext { builder.context with volume } (.volumeChanged delta volume)

/-- Passes over a tempo, which belongs to the whole score. -/
def skipTempo (builder : Builder) (argument : String) : Progress :=
  builder.tell (.tempoIgnored argument builder.channel.name)

/-- Adds a note to the channel. -/
def push (builder : Builder) (note : Note) : Builder :=
  { builder with channel := builder.channel.push note }

/-- Splits a token into the digits in front, if it has any, and the name of the note. A token with
a line feed inside is not split. -/
def splitToken (token : List Char) : Option (List Char) × List Char :=
  let digits := Pattern.digits token
  let name := Text.dropFinalNewline (token.dropWhile Text.isDigit)
  if digits = [] ∨ '\n' ∈ name then (none, token) else (some digits, name)

/-- Reads a whole number out of an argument. -/
def readNumber (argument : List Char) : Except Error Int :=
  match Decimal.read argument with
  | .ok n => .ok n
  | .error fault => .error (.notInteger 10 (Text.pointsOf argument) fault)

/-- The note that a token spells in a context. -/
def readNote (context : Context) (token : String) : Except Error Note := do
  let (digits?, name) := splitToken token.toList
  let duration ←
    match digits? with
    | some digits => readNumber digits
    | none => pure context.duration
  Note.ofName (String.ofList name) duration context.octave context.volume context.timbre

/-- Adds the note that a token spells, such as `C`, `f+` or `16B-`. -/
def addNote (builder : Builder) (token : String) : Progress :=
  match readNote builder.context token with
  | .ok note => (builder.push note).tell (.noteAdded note)
  | .error error => builder.refuse error

/-- Goes on with the number that an argument spells. -/
def withNumber (builder : Builder) (argument : String) (next : Int → Progress) : Progress :=
  match readNumber argument.toList with
  | .ok n => next n
  | .error error => builder.refuse error

/-- Carries an instruction out. -/
def apply (builder : Builder) (kind : Kind) (argument : String) : Progress :=
  match kind with
  | .timbre => builder.setTimbre argument
  | .volume => builder.withNumber argument builder.setVolume
  | .volumeUp => builder.withNumber argument builder.addVolume
  | .volumeDown => builder.withNumber argument fun n => builder.addVolume (-n)
  | .octave => builder.withNumber argument builder.setOctave
  | .octaveUp => builder.addOctave 1
  | .octaveDown => builder.addOctave (-1)
  | .length => builder.withNumber argument builder.setDuration
  | .tempo => builder.skipTempo argument
  | .timedNote => builder.addNote argument
  | .note => builder.addNote argument

/-- Carries out an instruction whose kind is given by name. -/
def applyNamed (builder : Builder) (kind argument : String) : Progress :=
  match Kind.ofName? kind with
  | some known => builder.apply known argument
  | none => builder.refuse (.unknownInstruction kind)

/-- Carries instructions out in order, up to the first that fails. -/
def applyAll (builder : Builder) : List Instruction → Progress
  | [] => { builder }
  | instruction :: rest =>
    (builder.apply instruction.kind instruction.argument).andThen fun next => next.applyAll rest

/-- Reads one line: its instructions are found first and then carried out. -/
def feedLine (builder : Builder) (line : List Char) : Progress :=
  let found := Schedule.accepted builder.table line
  let scheduled : Progress :=
    { builder, log := found.map fun o => .matched o.kind o.argument o.offset }
  scheduled.andThen fun next => next.applyAll (Schedule.ofAccepted found)

/-- Reads lines in order, up to the first instruction that fails. -/
def feedLines (builder : Builder) : List (List Char) → Progress
  | [] => { builder }
  | line :: rest => (builder.feedLine line).andThen fun next => next.feedLines rest

/-- Reads a text line by line. -/
def feed (builder : Builder) (text : List Char) : Progress := builder.feedLines (Text.lines text)

end Builder

/-- A channel from its whole text. -/
def Channel.build (table : List Kind) (name : String) (text : List Char) : Report Channel :=
  let progress := (Builder.start name table).feed text
  match progress.failure? with
  | some error => ⟨.error error, progress.log⟩
  | none => ⟨.ok progress.builder.channel, progress.log⟩

end Chiptune
