import Chiptune.Command.Arguments
import Chiptune.Error

/-!
# The files that arguments name

An empty value names no file. Every switch keeps to that, so every command line does: where arguments
name a file, they name it by a text that is not empty.
-/

namespace Chiptune
namespace Command
namespace Arguments

/-- No file is named by an empty text. -/
structure Draft.NamesFiles (draft : Draft) : Prop where
  output : draft.output? ≠ some ""
  config : draft.config? ≠ some ""
  midi : draft.midi? ≠ some ""

variable {draft next : Draft}

theorem file?_ne (text : String) : file? text ≠ some "" := by
  unfold file?
  split
  · simp
  · rename_i hne
    simpa using hne

theorem Draft.NamesFiles.apply (hdraft : draft.NamesFiles) {setting : Setting}
    (h : draft.apply setting = .ok next) : next.NamesFiles := by
  obtain ⟨houtput, hconfig, hmidi⟩ := hdraft
  cases setting with
  | flag flag => cases flag <;> cases h <;> exact ⟨houtput, hconfig, hmidi⟩
  | value slot text =>
    cases slot with
    | output =>
      cases h
      exact ⟨file?_ne text, hconfig, hmidi⟩
    | config =>
      cases h
      exact ⟨houtput, file?_ne text, hmidi⟩
    | midi =>
      cases h
      exact ⟨houtput, hconfig, file?_ne text⟩

/-- What every step of a run keeps, the run keeps. -/
theorem foldlM_keeps {σ α ε : Type} {P : σ → Prop} {step : σ → α → Except ε σ}
    (hstep : ∀ s a s', P s → step s a = .ok s' → P s') {l : List α} {s s' : σ} (hs : P s)
    (h : l.foldlM step s = .ok s') : P s' := by
  induction l generalizing s with
  | nil =>
    cases h
    exact hs
  | cons a rest ih =>
    rw [List.foldlM_cons] at h
    cases hfirst : step s a with
    | error e =>
      rw [hfirst] at h
      cases h
    | ok s₁ =>
      rw [hfirst] at h
      exact ih (hstep s a s₁ hs hfirst) h

/-- One word. -/
theorem Draft.NamesFiles.step (hdraft : draft.NamesFiles) {word : Word}
    (h : draft.step word = .ok next) : next.NamesFiles := by
  obtain ⟨houtput, hconfig, hmidi⟩ := hdraft
  have hclear : ({ draft with waiting? := none, atInput := false } : Draft).NamesFiles :=
    ⟨houtput, hconfig, hmidi⟩
  unfold Draft.step at h
  split at h
  · exact foldlM_keeps (fun _ _ _ hs => hs.apply) hclear h
  · cases h
  · split at h <;> cases h <;> exact ⟨houtput, hconfig, hmidi⟩
  · cases h
    exact ⟨houtput, hconfig, hmidi⟩
  · split at h <;> cases h <;> exact ⟨houtput, hconfig, hmidi⟩
  · split at h
    · cases h
    · exact foldlM_keeps (fun _ _ _ hs => hs.apply) hclear h
    · cases h
      exact ⟨houtput, hconfig, hmidi⟩

theorem Draft.NamesFiles.finish (hdraft : draft.NamesFiles) {arguments : Arguments}
    (h : draft.finish = .ok arguments) :
    arguments.output? ≠ some "" ∧ arguments.config? ≠ some "" ∧ arguments.midi? ≠ some "" := by
  unfold Draft.finish at h
  split at h
  · cases h
  · cases h
  · split at h
    · cases h
      exact ⟨hdraft.output, hdraft.config, hdraft.midi⟩
    · cases h

end Arguments

namespace Request

variable {arguments : Arguments}

end Request

end Command
end Chiptune
