import Chiptune.Decimal.Fixed
import Chiptune.Instruction.Kind
import Chiptune.Note

/-!
# Events

What the library reports while it works. An event says what happened; its level, its origin and
its wording follow from that. An event with a number too long to be written cannot be reported,
and the work that it was to tell of fails instead, whether anybody listens or not.
-/

namespace Chiptune

/-- How much an event matters. -/
inductive Level where
  | debug
  | info
  | warning
  | error
  deriving DecidableEq, Repr

namespace Level

/-- The name of a level. -/
def name : Level → String
  | debug => "DEBUG"
  | info => "INFO"
  | warning => "WARNING"
  | error => "ERROR"

/-- Levels in rising order. -/
def rank : Level → Nat
  | debug => 10
  | info => 20
  | warning => 30
  | error => 40

/-- The level with a name. -/
def ofName? (name : String) : Option Level :=
  [debug, info, warning, error].find? fun level => level.name == name

end Level

/-- The part of the library that an event comes from. -/
inductive Origin where
  | schedule
  | channel
  | source
  | synthesis
  | settings
  | midi
  | wav
  | command
  deriving DecidableEq, Repr

/-- The name under which a part reports. -/
def Origin.name : Origin → String
  | schedule => "mmlsynth.scheduler"
  | channel => "mmlsynth.channel"
  | source => "mmlsynth.reader"
  | synthesis => "mmlsynth.synth"
  | settings => "mmlsynth.settings"
  | midi => "mmlsynth.midi_export"
  | wav => "mmlsynth.wav"
  | command => "mmlsynth"

/-- Something that happened. -/
inductive Event where
  | matched (kind : Kind) (argument : String) (offset : Nat)
  | octaveSet (octave : Int)
  | octaveChanged (delta octave : Int)
  | durationSet (duration : Int)
  | timbreSet (timbre : String)
  | volumeSet (volume : Int)
  | volumeChanged (delta volume : Int)
  | tempoIgnored (argument channel : String)
  | noteAdded (note : Note)
  | channelCompiled (channel : String) (notes : Nat) (seconds : Float)
  | noChannels
  | noteSilenced (channel : String) (cause : Error) (note : Note)
  | samplesClipped (count : Nat)
  | noteSkipped (note : Note)
  | midiSaved (path : String) (channels : Nat)
  | wavSaved (path : String) (seconds : Float) (rate : Number)
  | configMissing (path : String)
  | configRejected (cause : Error)
  | compiling
  | sourceMissing (path : String)
  | sourceUnreadable (path : String) (cause : Error)
  | compileFailed (cause : Error)
  | compiled (channels : Nat) (tempo : Number) (seconds : Float)
  | rendering
  | notesSilenced (count : Nat)
  | outputFailed (cause : Error)
  /-- Anything that no other event foresees. The cause is told apart from the wording. -/
  | unexpected (cause : Error)
  deriving Repr

namespace Event

/-- How much an event matters. -/
def level : Event → Level
  | matched .. | octaveSet _ | octaveChanged .. | durationSet _ | timbreSet _ | volumeSet _
  | volumeChanged .. | tempoIgnored .. | noteAdded _ | channelCompiled .. => .debug
  | midiSaved .. | wavSaved .. | compiling | compiled .. | rendering => .info
  | noChannels | samplesClipped _ | noteSkipped _ | configMissing _ | notesSilenced _ => .warning
  | noteSilenced .. | configRejected _ | sourceMissing _ | sourceUnreadable .. | compileFailed _
  | outputFailed _ | unexpected _ => .error

/-- The part of the library that an event comes from. -/
def origin : Event → Origin
  | matched .. => .schedule
  | octaveSet _ | octaveChanged .. | durationSet _ | timbreSet _ | volumeSet _ | volumeChanged ..
  | tempoIgnored .. | noteAdded _ => .channel
  | channelCompiled .. | noChannels => .source
  | noteSilenced .. | samplesClipped _ => .synthesis
  | noteSkipped _ | midiSaved .. => .midi
  | wavSaved .. => .wav
  | configMissing _ => .settings
  | configRejected _ | compiling | sourceMissing _ | sourceUnreadable .. | compileFailed _
  | compiled .. | rendering | notesSilenced _ | outputFailed _ | unexpected _ => .command

/-- The whole numbers in the wording of an event that have no bound of their own. -/
def numbers : Event → List Int
  | octaveSet n | durationSet n | volumeSet n => [n]
  | octaveChanged delta n | volumeChanged delta n => [delta, n]
  | noteAdded note | noteSilenced _ _ note | noteSkipped note =>
    [note.octave, note.duration, note.volume]
  | compiled _ (.whole n) _ | wavSaved _ _ (.whole n) => [n]
  | _ => []

/-- Whether an event can be put into words. -/
def isWritable (event : Event) : Bool := event.numbers.all Decimal.isWritable

/-- A number in words, whatever its length. -/
def numberText (n : Number) : String := n.text.toOption.getD ""

/-- The wording of an event. -/
def text : Event → String
  | matched kind argument offset =>
    "Matched " ++ kind.name ++ " " ++ Text.quoted argument ++ " at offset " ++ toString offset
  | octaveSet octave => "Octave set to " ++ toString octave
  | octaveChanged delta octave =>
    "Octave changed by " ++ Decimal.signed delta ++ " to " ++ toString octave
  | durationSet duration => "Default duration set to " ++ toString duration
  | timbreSet timbre => "Timbre set to " ++ Text.quoted timbre
  | volumeSet volume => "Volume set to " ++ toString volume
  | volumeChanged delta volume =>
    "Volume changed by " ++ Decimal.signed delta ++ " to " ++ toString volume
  | tempoIgnored argument channel =>
    "Tempo " ++ argument ++ " ignored by channel " ++ Text.quoted channel
  | noteAdded note => "Note added: " ++ note.text
  | channelCompiled channel notes seconds =>
    "Channel " ++ Text.quoted channel ++ ": " ++ toString notes ++ " notes, " ++
      Decimal.fixed 2 seconds ++ "s"
  | noChannels => "No channels found (a channel starts with ':<name>')"
  | noteSilenced channel cause note =>
    "Channel " ++ Text.quoted channel ++ ": " ++ cause.message ++ " - note " ++ note.text ++
      " will be silent"
  | samplesClipped count => toString count ++ " samples clipped to the 8-bit range"
  | noteSkipped note => "Note " ++ note.text ++ " is outside the MIDI range - skipped"
  | midiSaved path channels => "Saved " ++ path ++ " (" ++ toString channels ++ " channels)"
  | wavSaved path seconds rate =>
    "Saved " ++ path ++ " (" ++ Decimal.fixed 2 seconds ++ "s, " ++ numberText rate ++ " Hz)"
  | configMissing path => "Config file " ++ path ++ " not found. Using defaults."
  | configRejected cause => "Invalid config: " ++ cause.message
  | compiling => "Compiling..."
  | sourceMissing path => "File not found: " ++ path
  | sourceUnreadable path cause => "I/O error reading " ++ path ++ ": " ++ cause.message
  | compileFailed cause => "Compile error: " ++ cause.message
  | compiled channels tempo seconds =>
    "Done (" ++ toString channels ++ " channels, " ++ numberText tempo ++ " BPM, " ++
      Decimal.fixed 2 seconds ++ "s)"
  | rendering => "Rendering audio..."
  | notesSilenced count =>
    toString count ++ " notes were silenced by unknown timbres or out-of-range pitches"
  | outputFailed cause => "I/O error writing output: " ++ cause.message
  | unexpected _ => "Unexpected error"

/-- An event as a line of the log. -/
def line (event : Event) : String :=
  event.level.name ++ " " ++ event.origin.name ++ ": " ++ event.text

end Event

end Chiptune
