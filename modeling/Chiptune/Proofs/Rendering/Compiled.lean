import Chiptune.Proofs.Rendering.Completion
import Chiptune.Proofs.Rendering.Voice
import Chiptune.Proofs.Source.Compiled

/-!
# Rendering what was compiled

A score that was compiled has playing times that are numbers, so its buffer has a length. With the
standard settings every count of samples is a float too, and what is left to ask is whether there is
room for the buffer, and whether its audible notes can be computed: that is a bound on their volume and
on the number of channels, and on how low a note of a timbre may be that divides by its frequency
(`Playable`).

That these bounds are needed, and that nothing else is, is the main result (`render_compiled_iff`). A
note without a voice does not stop a rendering; it is silent and reported.
-/

namespace Chiptune

/-- The settings where none are given. -/
def Settings.standard : Settings where
  sampleRate := defaultRate
  attackSeconds := defaultAttack
  decaySeconds := defaultDecay
  paddingSeconds := defaultPadding
  rate_positive := rfl
  attack_nonneg := by decide +kernel
  decay_nonneg := by decide +kernel
  padding_nonneg := by decide +kernel

open Binary64

/-! ## Lengths -/

namespace Score

theorem exists_lengths {tempo : Number} {channels : List Channel}
    (h : ∀ channel ∈ channels, ∃ length, channel.seconds tempo = .ok length) :
    ∃ lengths, channels.mapM (·.seconds tempo) = .ok lengths ∧
      ∀ length ∈ lengths, ∃ channel ∈ channels, channel.seconds tempo = .ok length := by
  induction channels with
  | nil => exact ⟨[], rfl, fun length hlength => absurd hlength List.not_mem_nil⟩
  | cons channel rest ih =>
    obtain ⟨⟨length, hlength⟩, hrest⟩ := List.forall_mem_cons.mp h
    obtain ⟨lengths, hlengths, hmem⟩ := ih hrest
    refine ⟨length :: lengths, ?_, List.forall_mem_cons.mpr ⟨⟨channel, List.mem_cons_self, hlength⟩,
      fun later hlater => ?_⟩⟩
    · rw [List.mapM_cons, hlength, hlengths]
      rfl
    · obtain ⟨found, hfound, heq⟩ := hmem later hlater
      exact ⟨found, List.mem_cons_of_mem _ hfound, heq⟩

theorem longest_mem {lengths : List Float} (h : lengths ≠ []) : longest lengths ∈ lengths := by
  cases lengths with
  | nil => exact absurd rfl h
  | cons first rest =>
    show rest.foldl _ first ∈ _
    clear h
    induction rest generalizing first with
    | nil => exact List.mem_cons_self
    | cons next rest ih =>
      have hlater := ih (if first < next then next else first)
      rw [List.foldl_cons]
      split at hlater
      · rename_i hless
        rw [if_pos hless]
        exact List.mem_cons_of_mem _ hlater
      · rename_i hless
        rw [if_neg hless]
        rcases List.mem_cons.mp hlater with heq | hmem
        · rw [heq]
          exact List.mem_cons_self
        · exact List.mem_cons_of_mem _ (List.mem_cons_of_mem _ hmem)

end Score

namespace Source

/-- The playing time of a compiled score is a number. -/
theorem Timed.exists_view_seconds {settings : Settings} {score : Score} (h : Timed settings score) :
    ∃ seconds d, score.seconds = .ok seconds ∧ view seconds = .finite d ∧ 0 ≤ d.value := by
  obtain ⟨lengths, hlengths, hmem⟩ := Score.exists_lengths h.seconds
  have hseconds : score.seconds = .ok (Score.longest lengths) := by
    unfold Score.seconds
    rw [hlengths]
    rfl
  obtain ⟨beats, hbeats, htempo⟩ := h.tempo
  cases lengths with
  | nil => exact ⟨_, ⟨0, -1074⟩, hseconds, view_zero, by simp [Dyadic.value]⟩
  | cons first rest =>
    obtain ⟨channel, -, hchannel⟩ := hmem _ (Score.longest_mem (List.cons_ne_nil first rest))
    rw [htempo] at hchannel
    obtain ⟨d, hd, hnonneg⟩ := Channel.exists_view_seconds hbeats hchannel
    exact ⟨_, d, hseconds, hd, hnonneg⟩

end Source

namespace Rendering

open Source

/-! ## The standard settings -/

theorem attackSamples_standard : Settings.standard.attackSamples = .ok 441 := rfl

theorem decaySamples_standard : Settings.standard.decaySamples = .ok 4410 := rfl

theorem paddingSamples_standard : Settings.standard.paddingSamples = .ok 88200 := rfl

theorem exists_rate_standard : ∃ rate d, Settings.standard.sampleRate.toFloat = .ok rate ∧
    view rate = .finite d ∧ d.value = 44100 := by
  exact_mod_cast exists_view_ofNat (show 44100 < 2 ^ 53 by decide)

/-- The length of the buffer: whole seconds of samples, and the padding. -/
theorem exists_bufferLength {score : Score} (h : Timed .standard score) :
    ∃ length : Nat, score.bufferLength = .ok (.whole length) := by
  obtain ⟨seconds, d, hseconds, hd, hnonneg⟩ := h.exists_view_seconds
  have hceil : 0 ≤ d.ceil := by exact_mod_cast hnonneg.trans d.le_ceil
  have hwhole := @toInt_of_view Dyadic.ceil _ _ hd
  have hlength : score.bufferLength = .ok (.whole (44100 * d.ceil + 88200)) := by
    unfold Score.bufferLength
    rw [hseconds, h.settings_eq, paddingSamples_standard]
    simp only [bind, Except.bind, hwhole]
    rfl
  exact ⟨(44100 * d.ceil + 88200).toNat, by rw [hlength, Int.toNat_of_nonneg (by omega)]⟩

/-- A note takes a number of samples that is a float. -/
theorem exists_noteCount {note : Note} {beats : Int} (hbeats : 1 ≤ beats)
    (h : ∃ seconds, note.seconds (.whole beats) = .ok seconds) :
    ∃ count, noteCount (.whole beats) Settings.standard.sampleRate note = .ok count ∧
      ∃ x, ofInt count = .ok x := by
  obtain ⟨seconds, hseconds⟩ := h
  obtain ⟨a, ha, ha0, hale⟩ := note.exists_view_seconds hbeats hseconds
  obtain ⟨rate, b, hrate, hb, hvalue⟩ := exists_rate_standard
  obtain ⟨c, hc, hc0, hcle⟩ := @exists_view_mul_le _ _ _ _ 240 44100 ha hb ha0 (by linarith)
    (by exact_mod_cast hale) (by rw [hvalue]; norm_num) (by decide)
  obtain ⟨hround0, hround⟩ := Dyadic.round_bounds hc0 hcle
  refine ⟨c.round, ?_, ?_⟩
  · unfold noteCount noteSamples
    rw [hseconds]
    simp only [bind, Except.bind]
    rw [real_mul, hrate]
    exact toInt_of_view hc
  · refine exists_ofInt_iff.mpr (lt_of_lt_of_le ?_ (two_pow_le_floatLimit (k := 30) (by decide)))
    omega

/-! ## Notes -/

/-- What the synthesis asks of a note, in a piece of so many channels. -/
structure Playable (channelCount : Nat) (note : Note) : Prop where
  volume : note.volume.natAbs < 255 * floatLimit
  channels : channelCount < floatLimit
  frequency : Waveform.Divides note.timbre → -12900 < note.semitones

variable {score : Score}

/-- What is the same for all notes of a score, in the library of waveforms. -/
def libraryOf (score : Score) (length : Nat) : Setup :=
  ⟨score.tempo.beats, length, score.channels.length, score.settings, Waveform.all⟩

/-- **A note passes exactly where it is playable**, or has no voice at all. -/
theorem passes_iff_playable {length : Nat} {channel : Channel} {note : Note}
    (h : Timed .standard score) (hchannel : channel ∈ score.channels) (hnote : note ∈ channel.notes)
    (hcount : ∃ count, noteCount score.tempo.beats score.settings.sampleRate note = .ok count ∧
      ∃ x, ofInt count = .ok x) :
    Passes (libraryOf score length) channel.name note ↔
      ((∃ voiced, voice Waveform.all note = .ok voiced) →
        Playable score.channels.length note) := by
  obtain ⟨count, hcount, hfloat⟩ := hcount
  have hpos : 0 < score.channels.length := List.length_pos_of_mem hchannel
  obtain ⟨rate, -, hrate, -⟩ := exists_rate_standard
  have hsettings : (libraryOf score length).settings = .standard := h.settings_eq
  cases hvoice : voice Waveform.all note with
  | error cause =>
    have hvoice' : voice (libraryOf score length).registry note = .error cause := hvoice
    refine iff_of_true ((passes_iff_of_voice_error hvoice').mpr ?_) fun ⟨voiced, h⟩ => by cases h
    exact silenced_of_voice_error (h.writable channel hchannel note hnote) hvoice channel.name
  | ok found =>
    obtain ⟨generator, frequency⟩ := found
    obtain ⟨hgenerator, hfrequency⟩ := voice_eq_ok_iff.mp hvoice
    have hsound := @exists_sound_iff (libraryOf score length) note generator frequency count 441 4410
      (by rw [hsettings]; exact attackSamples_standard)
      (by rw [hsettings]; exact decaySamples_standard)
      (isSome_toOption_iff.mp (by decide +kernel)) (isSome_toOption_iff.mp (by decide +kernel))
      hfloat ⟨rate, by rw [hsettings]; exact hrate⟩
    rw [imp_iff_right ⟨_, rfl⟩]
    refine ((passes_iff_of_voice hcount hvoice).trans hsound).trans ?_
    show (∃ peak, amplitude note score.channels.length = .ok peak) ∧ _ ↔ _
    rw [exists_amplitude_iff hpos, Waveform.exists_signal_iff hgenerator,
      note.frequency_ne_zero_iff hfrequency]
    exact ⟨fun ⟨⟨hvolume, hchannels⟩, hlow⟩ => ⟨hvolume, hchannels, hlow⟩,
      fun hplay => ⟨⟨hplay.volume, hplay.channels⟩, hplay.frequency⟩⟩

theorem outcome_render [Room] {length : Number} (hlength : score.bufferLength = .ok length) :
    (score.render Waveform.all).outcome = (ofChannels Waveform.all score.settings score.tempo.beats
      length score.channels).outcome := by
  unfold Score.render
  rw [Report.outcome_bind, Report.outcome_liftM, hlength]
  rfl

/-- **When a compiled score is rendered**: where there is room, and the audible notes that have a
voice are playable. -/
theorem exists_render_iff [Room] {length : Nat} (h : Timed .standard score)
    (hlength : score.bufferLength = .ok (.whole length)) :
    (∃ rendering, (score.render Waveform.all).outcome = .ok rendering) ↔
      4 * length < Room.limit ∧ ∀ channel ∈ score.channels, ∀ k note,
        Audible (libraryOf score length) channel.notes.toList 0 k note →
          (∃ voiced, voice Waveform.all note = .ok voiced) →
            Playable score.channels.length note := by
  obtain ⟨beats, hbeats, htempo⟩ := h.tempo
  have hcounts : ∀ channel ∈ score.channels, ∀ note ∈ channel.notes, ∃ count,
      noteCount score.tempo.beats score.settings.sampleRate note = .ok count ∧
        ∃ x, ofInt count = .ok x := by
    intro channel hchannel note hnote
    have hseconds := Channel.exists_seconds_iff.mp (h.seconds channel hchannel) note hnote
    rw [htempo] at hseconds
    rw [htempo, h.settings_eq]
    exact exists_noteCount hbeats hseconds
  rw [outcome_render hlength, exists_ofChannels_iff score.tempo.positive]
  refine and_congr_right fun _ => forall₂_congr fun channel hchannel => ?_
  have hchannels := @exists_addNotes_iff (libraryOf score length) channel.name ⟨#[], []⟩
    channel.notes.toList score.tempo.positive fun note hnote => by
      obtain ⟨count, hcount, -⟩ := hcounts channel hchannel note (Array.mem_toList_iff.mp hnote)
      exact ⟨count, hcount⟩
  refine hchannels.trans ?_
  refine forall₃_congr fun k note haudible => ?_
  obtain ⟨-, place, distance, hin, -⟩ := haudible
  have hnote : note ∈ channel.notes :=
    Array.mem_toList_iff.mp (List.mem_of_getElem? hin.note_eq)
  exact passes_iff_playable h hchannel hnote (hcounts channel hchannel note hnote)

/-- **Rendering a compiled score.** It comes to its end exactly where there is room for the buffer and
every audible note is playable that has a voice; an audible note without one is silent and among the
errors. -/
theorem render_compiled_iff [Room] {text : List Char}
    (h : (compile .standard text).outcome = .ok score) :
    ∃ length : Nat, score.bufferLength = .ok (.whole length) ∧
      ((∃ rendering, (score.render Waveform.all).outcome = .ok rendering) ↔
        4 * length < Room.limit ∧ ∀ channel ∈ score.channels, ∀ k note,
          Audible (libraryOf score length) channel.notes.toList 0 k note →
            (∃ voiced, voice Waveform.all note = .ok voiced) →
              Playable score.channels.length note) ∧
      ∀ rendering, (score.render Waveform.all).outcome = .ok rendering →
        InNormalForm Waveform.all score.settings score.tempo.beats (.whole length) score.channels
          rendering ∧
        ∀ channel ∈ score.channels, ∀ k note cause,
          Audible (libraryOf score length) channel.notes.toList 0 k note →
            voice Waveform.all note = .error cause → cause ∈ rendering.errors ∧
              ∀ distance, noteValue Waveform.all score.settings score.tempo.beats
                score.channels.length note distance = .ok 0 := by
  have htimed := timed_of_compile h
  obtain ⟨length, hlength⟩ := exists_bufferLength htimed
  refine ⟨length, hlength, exists_render_iff htimed hlength, fun rendering hrendering => ?_⟩
  rw [outcome_render hlength] at hrendering
  refine ⟨inNormalForm_ofChannels hrendering,
    fun channel hchannel k note cause haudible hvoice => ?_⟩
  exact ⟨mem_errors_ofChannels hrendering hchannel haudible hvoice,
    noteValue_of_voice_error hvoice⟩

/-- A score of one channel, at the tempo of a source that sets none. -/
def solo (notes : Array Note) : Score := { Score.empty .standard with channels := [⟨"a", notes⟩] }

theorem compile_eq_solo {text : List Char} {notes : Array Note}
    (htempo : tempos (stripComments text) = [])
    (hplayed : ∀ s ∈ sections (stripComments text), (played s).failure?.isNone = true ∧
      ((played s).builder.channel.seconds (.whole 100)).toOption.isSome = true)
    (hchannels : (sections (stripComments text)).map (fun s => (played s).builder.channel) =
      [⟨"a", notes⟩]) :
    (compile .standard text).outcome = .ok (solo notes) := by
  rw [compile_of_played (start_of_no_tempo .standard (findTempo_eq_none_iff.mpr htempo)) hplayed,
    hchannels]
  rfl

/-- A note in an octave that is out of range. -/
def soaring : Note := ⟨0, 4, 9999, 200, "sin", false, by decide, nofun⟩

/-- A note that can be played. -/
def middle : Note := ⟨0, 4, 4, 200, "square", false, by decide, nofun⟩

/-- A note whose frequency is zero. -/
def sunken : Note := ⟨0, 4, -1071, 200, "square", false, by decide, nofun⟩

/-- The first note of a source is heard. -/
theorem audible_solo {note : Note} {later : List Note} {count : Int} {length : Nat}
    {notes : Array Note}
    (hnotes : notes.toList = note :: later)
    (hcount : noteCount (.whole 100) Settings.standard.sampleRate note = .ok count)
    (hvolume : note.volume ≠ 0) (hpos : 0 < count) (hlength : 0 < length) :
    Audible (libraryOf (solo notes) length) notes.toList 0 0 note := by
  have hcount' : noteCount (libraryOf (solo notes) length).tempo
      (libraryOf (solo notes) length).settings.sampleRate note = .ok count := hcount
  rw [hnotes]
  exact (audible_zero hcount').mpr ⟨rfl, hvolume, hpos, hlength⟩

theorem render_compiled_soaring :
    ∃ score rendering, (compile .standard ":a\nO9999C@(square)O4C".toList).outcome = .ok score ∧
      (score.render Waveform.all).outcome = .ok rendering ∧ rendering.degraded = true := by
  have hcompile := @compile_eq_solo ":a\nO9999C@(square)O4C".toList #[soaring, middle]
    (by decide +kernel) (by decide +kernel) (by decide +kernel)
  obtain ⟨length, hlength, hrenders, hrendered⟩ := render_compiled_iff hcompile
  have hwhole : ((solo #[soaring, middle]).bufferLength >>= Number.truncate) = .ok 176400 :=
    toOption_eq_some_iff.mp (by decide +kernel)
  rw [hlength] at hwhole
  have hsamples : (length : Int) = 176400 := Except.ok.inj hwhole
  have hsilent : (voice Waveform.all soaring).toOption.isSome = false := by decide +kernel
  have hroom : Room.limit = 2 ^ 36 := rfl
  obtain ⟨rendering, hrendering⟩ := hrenders.mpr ⟨by omega, by
    intro channel hchannel k note haudible hvoiced
    obtain rfl : channel = ⟨"a", #[soaring, middle]⟩ := List.mem_singleton.mp hchannel
    obtain ⟨-, place, distance, hin, -⟩ := haudible
    rcases List.mem_pair.mp (List.mem_of_getElem? hin.note_eq) with rfl | rfl
    · rw [isSome_toOption_iff.mpr hvoiced] at hsilent
      cases hsilent
    · refine ⟨?_, ?_, fun _ => by decide⟩
      · exact (show 200 < 255 * 2 ^ 1 by decide).trans_le
          (Nat.mul_le_mul_left _ (two_pow_le_floatLimit (by decide)))
      · exact (show 1 < 2 ^ 1 by decide).trans_le (two_pow_le_floatLimit (by decide))⟩
  refine ⟨_, rendering, hcompile, hrendering, ?_⟩
  cases hvoice : voice Waveform.all soaring with
  | ok voiced =>
    rw [hvoice] at hsilent
    cases hsilent
  | error cause =>
    have hcount : noteCount (.whole 100) Settings.standard.sampleRate soaring = .ok 26460 :=
      toOption_eq_some_iff.mp (by decide +kernel)
    obtain ⟨-, hreported⟩ := hrendered rendering hrendering
    obtain ⟨hmem, -⟩ := hreported _ (List.mem_singleton_self _) 0 soaring cause
      (audible_solo rfl hcount (by decide) (by decide) (by omega)) hvoice
    unfold degraded
    cases herrors : rendering.errors with
    | nil =>
      rw [herrors] at hmem
      cases hmem
    | cons first rest => rfl

/-- A source that compiles and is not rendered: its one note is so low that its frequency is zero. -/
theorem render_compiled_sunken :
    ∃ score, (compile .standard (":a\n@(square)O0".toList ++
        (List.replicate 1071 '>' ++ ['C']))).outcome = .ok score ∧
      ¬ ∃ rendering, (score.render Waveform.all).outcome = .ok rendering := by
  have hcompile := @compile_eq_solo (":a\n@(square)O0".toList ++ (List.replicate 1071 '>' ++ ['C']))
    #[sunken] (by decide +kernel) (by decide +kernel) (by decide +kernel)
  have htimed := timed_of_compile hcompile
  obtain ⟨length, hlength⟩ := exists_bufferLength htimed
  have hwhole : ((solo #[sunken]).bufferLength >>= Number.truncate) = .ok 132300 :=
    toOption_eq_some_iff.mp (by decide +kernel)
  rw [hlength] at hwhole
  have hsamples : (length : Int) = 132300 := Except.ok.inj hwhole
  have hcount : noteCount (.whole 100) Settings.standard.sampleRate sunken = .ok 26460 :=
    toOption_eq_some_iff.mp (by decide +kernel)
  refine ⟨_, hcompile, fun hrenders => ?_⟩
  obtain ⟨-, hplayable⟩ := (exists_render_iff htimed hlength).mp hrenders
  have hlow := (hplayable _ (List.mem_singleton_self _) 0 sunken
    (audible_solo rfl hcount (by decide) (by decide) (by omega))
    (isSome_toOption_iff.mp (by decide +kernel))).frequency (Or.inl rfl)
  exact absurd hlow (by decide)

end Rendering
end Chiptune
