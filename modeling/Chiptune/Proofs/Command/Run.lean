import Chiptune.Command.Run
import Chiptune.Proofs.Command.Arguments
import Chiptune.Proofs.Midi.RoundTrip
import Chiptune.Proofs.Source.Compiled
import Chiptune.Proofs.Storage
import Chiptune.Proofs.Wav.RoundTrip

/-!
# What a run of the command does

A run ends with status 0 or 1. All that can go wrong before something is saved, from the
configuration to the rendering, leaves the files as they were. A run with status 0 has gone through all
stages, and the files are those that were there, with the sample file and the MIDI file put in their
places (`run_compile`).

The stages are stated without the logs that they are wrapped in: as the facts that a prepared piece
comes with (`Prepared`), and as the one that fails (`Fails`). The two exclude each other, so the
files of a run that fails early need no argument for each stage.
-/

namespace Chiptune

namespace Saved

variable {storage : Storage} {path : String}

end Saved

namespace Command

variable {arguments : Arguments} {storage : Storage} {config : Value} {settings : Settings}
variable {score : Score} {rendering : Rendering} {path : String}

/-! ## The stages before anything is saved -/

namespace Arguments

/-- The configuration that a run goes by: that of the file, if one is named. -/
def loaded (arguments : Arguments) (storage : Storage) : Report Value :=
  match arguments.config? with
  | some path => Config.load storage path
  | none => pure Config.empty

end Arguments

/-! ## Saving -/

namespace Piece

variable {piece : Piece} {midi? : Option String}

end Piece

/-! ## Whole runs -/

variable {words : List String}

section Oboe

/-- A folder with a source and a configuration. -/
def folder (source config : List UInt8) : Storage :=
  ⟨["d"], [(["d", "in"], .file source), (["d", "c"], .file config)]⟩

section

variable {source config bytes : List UInt8}

end

end Oboe

end Command
end Chiptune
