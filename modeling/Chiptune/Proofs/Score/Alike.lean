import Mathlib.Data.List.Forall2
import Chiptune.Proofs.Midi.Timing
import Chiptune.Rendering.Mix

/-!
# Alike scores

Two notes are alike if they differ at most in being marked as rests. The renderer looks at volumes
and never at that mark, and a track leaves out a note for either of them. It comes to the same since
a note that is marked has volume zero: two notes that are alike and not the same are both silent, and
take the same time (`Note.eq_or_silent_of_alike`).

So scores with alike notes are as long as each other, sound the same and are exported as the same
tracks (`Score.outputs_eq_of_alike`), and where one of them fails, the other does so for the same
reason and after the same events.
-/

namespace Chiptune

/-! ## Notes -/

namespace Note

variable {a b : Note}

/-- **Alike notes** are the same, or silent for the same time. -/
theorem eq_or_silent_of_alike (h : a.alike b = true) :
    a = b ∨ a.volume = 0 ∧ b.volume = 0 ∧ a.duration = b.duration := by
  obtain ⟨scaleIndex, duration, octave, volume, timbre, isRest, hpos, hrest⟩ := a
  obtain ⟨scaleIndex', duration', octave', volume', timbre', isRest', hpos', hrest'⟩ := b
  simp only [alike, Bool.and_eq_true, beq_iff_eq] at h
  obtain ⟨⟨⟨⟨rfl, rfl⟩, rfl⟩, rfl⟩, rfl⟩ := h
  by_cases hmark : isRest = isRest'
  · subst hmark
    exact .inl rfl
  · have hsilent : volume = 0 := by
      cases isRest with
      | true => exact hrest rfl
      | false => exact hrest' (Bool.not_eq_false _ |>.mp fun h => hmark h.symm)
    exact .inr ⟨hsilent, hsilent, rfl⟩

theorem seconds_congr (tempo : Number) (h : a.duration = b.duration) :
    a.seconds tempo = b.seconds tempo := by
  unfold seconds
  rw [h]

end Note

/-- Notes that are alike, one by one. -/
def AlikeNotes : List Note → List Note → Prop := List.Forall₂ fun a b => a.alike b = true

variable {notes notes' : List Note}

theorem Channel.secondsFrom_eq_of_alike {tempo : Number} {total : Float}
    (h : AlikeNotes notes notes') :
    secondsFrom tempo total notes = secondsFrom tempo total notes' := by
  induction h generalizing total with
  | nil => rfl
  | @cons a b later later' hnote _ ih =>
    have hduration : a.duration = b.duration := by
      rcases Note.eq_or_silent_of_alike hnote with rfl | ⟨-, -, hduration⟩
      · rfl
      · exact hduration
    simp only [secondsFrom, Note.seconds_congr tempo hduration, ih]

/-- The renderer goes on in the same way from any place: the note sounds in both runs, or in none. -/
theorem Mix.addNotes_eq_of_alike {setup : Setup} {channel : String} {offset : Nat} {mix : Mix}
    (h : AlikeNotes notes notes') :
    mix.addNotes setup channel offset notes = mix.addNotes setup channel offset notes' := by
  induction h generalizing offset mix with
  | nil => rfl
  | @cons a b later later' hnote _ ih =>
    rcases Note.eq_or_silent_of_alike hnote with rfl | ⟨hvolume, hvolume', hduration⟩
    · simp only [addNotes, ih]
    · simp only [addNotes, Note.seconds_congr setup.tempo hduration, hvolume, hvolume', true_or,
        if_true, ih]

/-- A track goes on in the same way from any place: the note is left out of both, for its mark or for
its volume, or is the same in both. -/
theorem Midi.trackFrom_eq_of_alike {channel ticksPerBeat : Int} {position : Float} {last : Int}
    (h : AlikeNotes notes notes') :
    trackFrom channel ticksPerBeat position last notes =
      trackFrom channel ticksPerBeat position last notes' := by
  induction h generalizing position last with
  | nil => rfl
  | @cons a b later later' hnote _ ih =>
    rcases Note.eq_or_silent_of_alike hnote with rfl | ⟨hvolume, hvolume', hduration⟩
    · simp only [trackFrom, ih]
    · simp only [trackFrom, noteTicks_congr hduration, hvolume, hvolume', le_refl, or_true, if_true,
        ih]

/-! ## Channels -/

/-- Channels of one name whose notes are alike. -/
structure Channel.Alike (a b : Channel) : Prop where
  name : a.name = b.name
  notes : AlikeNotes a.notes.toList b.notes.toList

variable {channels channels' : List Channel}

theorem Channel.seconds_eq_of_alike {a b : Channel} {tempo : Number} (h : a.Alike b) :
    a.seconds tempo = b.seconds tempo :=
  secondsFrom_eq_of_alike h.notes

theorem Channel.mapM_seconds_eq_of_alike {tempo : Number}
    (h : List.Forall₂ Channel.Alike channels channels') :
    channels.mapM (fun channel => channel.seconds tempo) =
      channels'.mapM fun channel => channel.seconds tempo := by
  induction h with
  | nil => rfl
  | cons hchannel _ ih => rw [List.mapM_cons, List.mapM_cons, seconds_eq_of_alike hchannel, ih]

theorem Mix.addChannels_eq_of_alike {setup : Setup} {mix : Mix}
    (h : List.Forall₂ Channel.Alike channels channels') :
    mix.addChannels setup channels = mix.addChannels setup channels' := by
  induction h generalizing mix with
  | nil => rfl
  | cons hchannel _ ih =>
    simp only [addChannels, hchannel.name, addNotes_eq_of_alike hchannel.notes, ih]

theorem Midi.channelTracks_eq_of_alike {ticksPerBeat : Int} {index : Nat}
    (h : List.Forall₂ Channel.Alike channels channels') :
    channelTracks ticksPerBeat index channels = channelTracks ticksPerBeat index channels' := by
  induction h generalizing index with
  | nil => rfl
  | cons hchannel _ ih =>
    simp only [channelTracks, track, hchannel.name, trackFrom_eq_of_alike hchannel.notes, ih]

/-! ## Scores -/

/-- Scores of one tempo and with the same settings whose channels are alike. -/
structure Score.Alike (a b : Score) : Prop where
  tempo : a.tempo = b.tempo
  settings : a.settings = b.settings
  channels : List.Forall₂ Channel.Alike a.channels b.channels

namespace Score

variable {a b : Score}

theorem seconds_eq_of_alike (h : a.Alike b) : a.seconds = b.seconds := by
  unfold seconds
  rw [h.tempo, Channel.mapM_seconds_eq_of_alike h.channels]

theorem bufferLength_eq_of_alike (h : a.Alike b) : a.bufferLength = b.bufferLength := by
  unfold bufferLength
  rw [seconds_eq_of_alike h, h.settings]

theorem render_eq_of_alike [Room] (h : a.Alike b) (registry : Registry Generator) :
    a.render registry = b.render registry := by
  unfold render Rendering.ofChannels
  simp only [bufferLength_eq_of_alike h, h.tempo, h.settings, h.channels.length_eq,
    Mix.addChannels_eq_of_alike h.channels]

theorem tracks_eq_of_alike (h : a.Alike b) (ticksPerBeat : Int) :
    Midi.tracks a ticksPerBeat = Midi.tracks b ticksPerBeat := by
  unfold Midi.tracks
  rw [h.tempo, Midi.channelTracks_eq_of_alike h.channels]

/-- **Nothing tells alike scores apart.** They have one playing time and one buffer length, one
rendering with any generators and one export: the results are the same, or the failures are, and so
are the events on the way. -/
theorem outputs_eq_of_alike [Room] (h : a.Alike b) :
    a.seconds = b.seconds ∧ a.bufferLength = b.bufferLength ∧
      (∀ registry, a.render registry = b.render registry) ∧
      ∀ ticksPerBeat, Midi.tracks a ticksPerBeat = Midi.tracks b ticksPerBeat :=
  ⟨seconds_eq_of_alike h, bufferLength_eq_of_alike h, render_eq_of_alike h, tracks_eq_of_alike h⟩

/-- A channel that begins with a rest, or with a note that has no volume, and goes on with a tone whose
timbre is unknown. -/
theorem outputs_eq_of_alike_rest :
    let tone : Note := ⟨0, 4, 4, 200, "oboe", false, by decide, by decide⟩
    let rest : Note := ⟨0, 4, 4, 0, "sin", true, by decide, fun _ => rfl⟩
    let mute : Note := ⟨0, 4, 4, 0, "sin", false, by decide, fun _ => rfl⟩
    let settings : Settings := ⟨.whole 8, .whole 0, .whole 0, .whole 0, rfl, rfl, rfl, rfl⟩
    let a : Score := ⟨.standard, [⟨"a", #[rest, tone]⟩], settings⟩
    let b : Score := ⟨.standard, [⟨"a", #[mute, tone]⟩], settings⟩
    a.Alike b ∧ a.channels ≠ b.channels ∧ a.seconds = b.seconds ∧
      a.bufferLength = b.bufferLength ∧ (∀ registry, a.render registry = b.render registry) ∧
      ∀ ticksPerBeat, Midi.tracks a ticksPerBeat = Midi.tracks b ticksPerBeat := by
  intro tone rest mute settings a b
  have hnotes : AlikeNotes [rest, tone] [mute, tone] :=
    .cons (by decide) (.cons (by decide) .nil)
  have halike : a.Alike b := ⟨rfl, rfl, .cons ⟨rfl, hnotes⟩ .nil⟩
  exact ⟨halike, by decide, outputs_eq_of_alike halike⟩

end Score

end Chiptune
