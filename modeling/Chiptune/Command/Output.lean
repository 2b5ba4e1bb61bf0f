import Chiptune.Midi.File
import Chiptune.Storage
import Chiptune.Wav.File

/-!
# Saving

Writing a rendering or a score into a directory, and saying so. What a failure leaves behind in
the file stays there.
-/

namespace Chiptune

/-- A directory after something was saved in it, or was to be. -/
structure Saved where
  storage : Storage
  report : Report Unit

namespace Saved

/-- Writes a file as far as its bytes go, and then reports. -/
def file (storage : Storage) (path : String) (written : Written) (done : Report Unit) : Saved :=
  match storage.write path written.bytes with
  | .error error => ⟨storage, .fail error⟩
  | .ok next =>
    match written.failure? with
    | some error => ⟨next, .fail error⟩
    | none => ⟨next, done⟩

/-- Saves samples in a sample file. -/
def wav (storage : Storage) (path : String) (format : Wav.Format) (samples : List Int8) : Saved :=
  file storage path (Wav.encode format samples) do
    let seconds ← Rendering.duration samples.length format.rate
    Report.tell (.wavSaved path seconds format.rate)

/-- Saves a score in a MIDI file. All of it is turned into messages before the file is opened. -/
def midi (storage : Storage) (path : String) (score : Score) : Saved :=
  let converted := Midi.tracks score Midi.ticksPerBeat
  match converted.outcome with
  | .error error => ⟨storage, ⟨.error error, converted.log⟩⟩
  | .ok tracks =>
    let saved :=
      file storage path (Midi.encode tracks) (Report.tell (.midiSaved path score.channels.length))
    ⟨saved.storage, ⟨saved.report.outcome, converted.log ++ saved.report.log⟩⟩

end Saved

end Chiptune
