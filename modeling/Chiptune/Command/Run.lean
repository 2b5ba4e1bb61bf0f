import Chiptune.Command.Arguments
import Chiptune.Command.Help
import Chiptune.Command.Output
import Chiptune.Config
import Chiptune.Source.Compile

/-!
# Running the command

The command as a function of its arguments and of the files that are there. Up to the rendering
nothing is written; then the sample file is saved, and the MIDI file where one is asked for. The
stage that fails says so in its own words, and the command ends with status 1, whatever the cause.
-/

namespace Chiptune

/-- Work that tells of its own failure, at the end of its log. -/
def Report.explained {α : Type} (report : Report α) (explanation : Error → Event) : Report α :=
  match report.outcome with
  | .ok _ => report
  | .error error => ⟨.error error, report.log ++ [explanation error]⟩

namespace Command

/-- How a run of the command ends. -/
structure Outcome where
  status : UInt32
  /-- What is printed as the answer. -/
  output : String := ""
  /-- What is wrong with the command line. -/
  complaint? : Option Complaint := none
  /-- The events that are shown. -/
  log : List Event := []
  storage : Storage

/-- The sample file where none is named. -/
def defaultOutput : String := "output.wav"

/-- A piece that is ready to be saved, and the value that names its sample file. -/
structure Piece where
  output : Value
  score : Score
  rendering : Rendering

namespace Arguments

/-- The level from which on events are shown. To be quiet outweighs to be verbose. -/
def threshold (arguments : Arguments) : Level :=
  if arguments.quiet then .error else if arguments.verbose then .debug else .info

/-- The configuration, and the settings in it. -/
def configuration (arguments : Arguments) (storage : Storage) : Report (Value × Settings) :=
  let loaded : Report (Value × Settings) := do
    let config ←
      match arguments.config? with
      | some path => Config.load storage path
      | none => pure Config.empty
    return (config, ← Settings.ofConfig config)
  loaded.explained fun error =>
    if error.isPath || error.isValue then .configRejected error else .unexpected error

/-- What names the sample file: the command line, else the configuration, else the default. -/
def outputValue (arguments : Arguments) (config : Value) : Except Error Value := do
  match arguments.output? with
  | some path => return .text path
  | none =>
    let chosen := (← config.lookUp "output").getD .null
    return if chosen.isTruthy then chosen else .text defaultOutput

/-- The compiled source. -/
def compiled (arguments : Arguments) (settings : Settings) (storage : Storage) : Report Score :=
  (Source.compileFile settings storage arguments.input).explained fun error =>
    match error with
    | .path .missing _ => .sourceMissing arguments.input
    | _ =>
      if error.isPath then .sourceUnreadable arguments.input error
      else if error.isValue then .compileFailed error
      else .unexpected error

/-- A score in samples. -/
def rendered [Room] (score : Score) : Report Rendering :=
  let work : Report Rendering := do
    let seconds ← score.seconds
    Report.tell (.compiled score.channels.length score.tempo.beats seconds)
    Report.tell .rendering
    let rendering ← score.render Waveform.all
    if rendering.degraded then
      Report.tell (.notesSilenced rendering.errors.length)
    return rendering
  work.explained .unexpected

/-- All the work before anything is saved. -/
def prepare [Room] (arguments : Arguments) (storage : Storage) : Report Piece := do
  let (config, settings) ← arguments.configuration storage
  let output ← (Report.ofExcept (arguments.outputValue config)).explained .unexpected
  Report.tell .compiling
  let score ← arguments.compiled settings storage
  let rendering ← rendered score
  return { output, score, rendering }

end Arguments

namespace Piece

/-- Saves the samples. A text with halves of surrogate pairs names no file. What is no text names
none either, but that comes out only when the first byte is to be written. -/
def saveSamples (piece : Piece) (storage : Storage) : Saved :=
  let format : Wav.Format := { rate := piece.rendering.sampleRate }
  match piece.output with
  | .text path => Saved.wav storage path format piece.rendering.samples.toList
  | .brokenText path => ⟨storage, .fail (.unencodablePath path)⟩
  | _ =>
    match format.parameters with
    | .ok _ => ⟨storage, .fail .noSuchPart⟩
    | .error error => ⟨storage, .fail error⟩

/-- Saves the samples, and the score where a MIDI file is named. -/
def save (piece : Piece) (midi? : Option String) (storage : Storage) : Saved :=
  let first := piece.saveSamples storage
  match first.report.outcome, midi? with
  | .ok _, some path =>
    let second := Saved.midi first.storage path piece.score
    ⟨second.storage, ⟨second.report.outcome, first.report.log ++ second.report.log⟩⟩
  | _, _ => first

end Piece

/-- Compiles a source and saves what it says. -/
def compile [Room] (arguments : Arguments) (storage : Storage) : Outcome :=
  let prepared := arguments.prepare storage
  let shown := List.filter fun event : Event => arguments.threshold.rank ≤ event.level.rank
  match prepared.outcome with
  | .error _ => { status := 1, log := shown prepared.log, storage }
  | .ok piece =>
    let saved := piece.save arguments.midi? storage
    let report := saved.report.explained fun error =>
      if error.isPath then .outputFailed error else .unexpected error
    {
      status := if report.outcome.isOk then 0 else 1
      log := shown (prepared.log ++ report.log)
      storage := saved.storage
    }

/-- Runs the command with the words of its command line. -/
def run [Room] (words : List String) (storage : Storage) : Outcome :=
  match Request.ofTexts words with
  | .error complaint => { status := 2, complaint? := some complaint, storage }
  | .ok .help => { status := 0, output := helpText, storage }
  | .ok (.compile arguments) => compile arguments storage

end Command
end Chiptune
