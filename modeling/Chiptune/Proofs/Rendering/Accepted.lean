import Chiptune.Proofs.Rendering.Comparison
import Chiptune.Proofs.Rendering.ErrorReport
import Chiptune.Proofs.Rendering.Headroom
import Chiptune.Proofs.Rendering.Height
import Chiptune.Proofs.Score.Length

/-!
# Rendering what was accepted

Settings and tempos are accepted by their signs. For a score of ordinary notes (`Score.IsOrdinary`),
this file says which of the accepted values the synthesis can render with, and that there is no other
question to ask (`render_accepted_iff`).

The buffer needs a length that is a whole number, and room. With both, the rate is a float, and no note
takes more samples than there are in the buffer: a note is no longer than the score, and the score is
laid out in whole seconds (`Laid.exists_noteCount`). So what remains are a tempo that is a not-a-number,
which a playing time can hide, and fades past the greatest float, which only an audible note asks for.
-/

namespace Chiptune

open Binary64

/-- A note whose numbers are those of a usual source, in a timbre that there is. -/
structure Note.IsOrdinary (note : Note) : Prop where
  octave : 0 ≤ note.octave ∧ note.octave ≤ 10
  volume : note.IsNominal
  duration : note.duration ≤ 1024
  timbre : ∃ generator, Waveform.all.find? note.timbre = some generator

def Score.IsOrdinary (score : Score) : Prop :=
  ∀ channel ∈ score.channels, ∀ note ∈ channel.notes, note.IsOrdinary

namespace Rendering

variable {score : Score} {rate padding : Int} {playing : Binary64.Dyadic} {note : Note}

/-! ## Counts -/

/-- A note that has a count is played at a tempo that is no not-a-number. -/
theorem isNaN_of_noteCount {tempo sampleRate : Number} {count : Int}
    (h : noteCount tempo sampleRate note = .ok count) : tempo.isNaN = false := by
  obtain ⟨length, hlength, h⟩ := bind_eq_ok_iff.mp h
  obtain ⟨product, hproduct, h⟩ := bind_eq_ok_iff.mp h
  rw [real_mul] at hproduct
  obtain ⟨r, -, hproduct⟩ := bind_eq_ok_iff.mp hproduct
  cases hproduct
  obtain ⟨c, hc, -⟩ := exists_view_of_toInt h
  obtain ⟨⟨l, hl⟩, -⟩ := exists_view_of_mul hc
  obtain ⟨duration, pulse, -, -, hpulse, -, rfl⟩ := Note.seconds_eq_ok_iff.mp hlength
  obtain ⟨-, beat, hbeat⟩ := exists_view_of_mul hl
  unfold Number.toFloat at hpulse
  unfold Number.isNaN
  cases hmeasure : tempo.measure with
  | exact k => rfl
  | approximate x =>
    rw [hmeasure] at hpulse
    cases hpulse
    simp only [isNaN]
    split
    · rename_i hnan
      cases (view_div_nan hnan).symm.trans hbeat
    · rfl

end Rendering

namespace Score.Laid

variable {score : Score} {rate padding : Int} {playing : Binary64.Dyadic} {note : Note}

open Rendering

/-- With room for the buffer, the rate is a float, and small next to the playing time. -/
theorem exists_rate [Room] (h : score.Laid rate padding playing)
    (hpos : 0 < rate * playing.ceil + padding)
    (hroom : 4 * (rate * playing.ceil + padding) < Room.limit) :
    ∃ x r, score.settings.sampleRate.toFloat = .ok x ∧ view x = .finite r ∧ 0 ≤ r.value ∧
      playing.value * r.value ≤ (2 ^ 53 - 1 : Nat) := by
  rw [Number.toFloat_of_exact h.rate_eq]
  obtain ⟨hrate, hpadding, hplaying, hceil⟩ := h.bounds
  have hlimit : Room.limit ≤ 2 ^ 55 := Room.limit_le
  have hproduct := Int.mul_nonneg (by omega : 0 ≤ rate) hceil
  rcases hceil.lt_or_eq with hlasts | hnone
  · -- The buffer is at least as long as the rate.
    have hle : rate ≤ rate * playing.ceil := le_mul_of_one_le_right (by omega) hlasts
    obtain ⟨x, r, hx, hr, hvalue⟩ := @exists_view_ofNat rate.toNat (by omega)
    rw [Int.toNat_of_nonneg (by omega)] at hx
    refine ⟨x, r, hx, hr, by rw [hvalue]; positivity, ?_⟩
    have hr' : r.value = rate := by
      rw [hvalue]
      exact_mod_cast Int.toNat_of_nonneg (by omega : 0 ≤ rate)
    have hmost : (rate * playing.ceil : ℚ) ≤ (2 ^ 53 - 1 : Nat) := by
      exact_mod_cast (show rate * playing.ceil ≤ ((2 ^ 53 - 1 : Nat) : Int) by omega)
    rw [hr']
    have hrate0 : (0 : ℚ) ≤ rate := by exact_mod_cast (by omega : 0 ≤ rate)
    calc playing.value * rate ≤ playing.ceil * rate :=
          mul_le_mul_of_nonneg_right playing.le_ceil hrate0
      _ = rate * playing.ceil := mul_comm _ _
      _ ≤ (2 ^ 53 - 1 : Nat) := hmost
  · -- Nothing is played, and the padding is not empty.
    have hzero : playing.value = 0 := by
      refine le_antisymm ?_ hplaying
      have := playing.le_ceil
      rw [← hnone] at this
      exact_mod_cast this
    obtain ⟨x, hx⟩ : ∃ x, ofInt rate = .ok x := by
      rcases (Settings.samples_eq_ok_iff h.rate_eq).mp h.padding_eq with
        ⟨k, -, rfl⟩ | ⟨-, x, -, -, hx, -⟩
      · rw [← hnone, mul_zero, zero_add] at hpos hroom
        have hk : 1 ≤ k := by
          by_contra hnot
          exact absurd hpos (not_lt.mpr (Int.mul_nonpos_of_nonneg_of_nonpos (by omega) (by omega)))
        have hle : rate ≤ rate * k := le_mul_of_one_le_right (by omega) hk
        have hfloat := @two_pow_le_floatLimit 55 (by decide)
        exact exists_ofInt_iff.mpr (by omega)
      · exact ⟨x, hx⟩
    obtain ⟨r, hr, -⟩ := exists_view_ofInt hx
    have hr1 := one_le_value_ofInt hrate hx hr
    exact ⟨x, r, hx, hr, by linarith, by rw [hzero, zero_mul]; positivity⟩

/-- **No note takes more samples than can be counted.** -/
theorem exists_noteCount [Room] (h : score.Laid rate padding playing)
    (hpos : 0 < rate * playing.ceil + padding)
    (hroom : 4 * (rate * playing.ceil + padding) < Room.limit)
    (hnan : score.tempo.beats.isNaN = false) (hordinary : score.IsOrdinary) {channel : Channel}
    (hchannel : channel ∈ score.channels) (hnote : note ∈ channel.notes) :
    ∃ count, noteCount score.tempo.beats score.settings.sampleRate note = .ok count ∧
      ∃ x, ofInt count = .ok x := by
  obtain ⟨x, r, hx, hr, hr0, hmost⟩ := h.exists_rate hpos hroom
  obtain ⟨seconds, hseconds, hd⟩ := h.seconds_eq
  obtain ⟨length, b, hlength, hb, hb0, hle⟩ := exists_view_note hseconds hd hnan
    (fun channel hchannel note hnote => (hordinary channel hchannel note hnote).duration)
    hchannel hnote
  have hproduct0 : 0 ≤ b.value * r.value := mul_nonneg hb0 hr0
  have hproduct : b.value * r.value ≤ (2 ^ 53 - 1 : Nat) :=
    (mul_le_mul_of_nonneg_right hle hr0).trans hmost
  obtain ⟨c, hc, hnearest⟩ := exists_view_mul hb hr (by
    rw [abs_of_nonneg hproduct0]
    exact hproduct.trans (natCast_le_two_pow (by decide)))
  obtain ⟨hc0, hcle⟩ := hnearest.bounds (by decide) hproduct0 hproduct
  obtain ⟨hround0, hround⟩ := Dyadic.round_bounds hc0 hcle
  refine ⟨c.round, ?_, ?_⟩
  · unfold noteCount noteSamples
    rw [hlength]
    simp only [bind, Except.bind]
    rw [real_mul, hx]
    exact toInt_of_view hc
  · have hlimit := @two_pow_le_floatLimit 54 (by decide)
    exact exists_ofInt_iff.mpr (by omega)

end Score.Laid

namespace Rendering

variable {score : Score} {length : Nat} {channel : Channel} {note : Note}

/-! ## Notes -/

theorem semitones_bounds (h : note.IsOrdinary) : -57 ≤ note.semitones ∧ note.semitones ≤ 74 := by
  have hoctave := h.octave
  unfold Note.semitones
  omega

theorem exists_voice (h : note.IsOrdinary) :
    ∃ generator frequency, voice Waveform.all note = .ok (generator, frequency) := by
  obtain ⟨generator, hgenerator⟩ := h.timbre
  have hsemitones := semitones_bounds h
  have hlimit := @two_pow_le_floatLimit 10 (by decide)
  obtain ⟨frequency, hfrequency, -⟩ := @Note.exists_frequencyAt_low note.semitones
    (by omega) (by omega)
  exact ⟨generator, frequency, voice_eq_ok_iff.mpr ⟨hgenerator, hfrequency⟩⟩

/-- **An ordinary note passes** where fades have lengths, and the channels can be counted. -/
theorem passes_iff_hasFades (h : note.IsOrdinary) (hchannel : channel ∈ score.channels)
    (hcount : ∃ count, noteCount score.tempo.beats score.settings.sampleRate note = .ok count ∧
      ∃ x, ofInt count = .ok x)
    (hrate : ∃ x, score.settings.sampleRate.toFloat = .ok x) :
    Passes (libraryOf score length) channel.name note ↔
      HasFades score.settings ∧ score.channels.length < floatLimit := by
  obtain ⟨count, hcount, hfloat⟩ := hcount
  obtain ⟨generator, frequency, hvoice⟩ := exists_voice h
  obtain ⟨hgenerator, hfrequency⟩ := voice_eq_ok_iff.mp hvoice
  have hpos : 0 < score.channels.length := List.length_pos_of_mem hchannel
  refine ((passes_iff_of_voice hcount hvoice).trans sound_returns_iff).trans ?_
  show (∃ peak, amplitude note score.channels.length = .ok peak) ∧ HasFades score.settings ∧ _ ∧
    (∃ x, score.settings.sampleRate.toFloat = .ok x) ∧ _ ↔ _
  rw [exists_amplitude_iff hpos, Waveform.exists_signal_iff hgenerator,
    note.frequency_ne_zero_iff hfrequency, and_iff_right hfloat, and_iff_right hrate]
  constructor
  · rintro ⟨⟨-, hchannels⟩, hfades, -⟩
    exact ⟨hfades, hchannels⟩
  · rintro ⟨hfades, hchannels⟩
    have hvolume := h.volume
    have hsemitones := semitones_bounds h
    have hlimit := @two_pow_le_floatLimit 1 (by decide)
    unfold Note.IsNominal at hvolume
    exact ⟨⟨by omega, hchannels⟩, hfades, fun _ => by omega⟩

/-! ## Scores -/

/-- What is left to ask where a buffer has a length. -/
structure CanFill [Room] (score : Score) (length : Nat) : Prop where
  room : 4 * length < Room.limit
  tempo : 0 < length → score.tempo.beats.isNaN = true →
    ∀ channel ∈ score.channels, channel.notes = #[]
  fades : ∀ channel ∈ score.channels, ∀ k note,
    Audible (libraryOf score length) channel.notes.toList 0 k note →
      HasFades score.settings ∧ score.channels.length < floatLimit

theorem exists_addNotes_iff_of_laid [Room] {rate padding : Int} {playing : Binary64.Dyadic}
    (h : score.Laid rate padding playing) (hlength : (length : Int) = rate * playing.ceil + padding)
    (hpos : 0 < length) (hroom : 4 * length < Room.limit) (hnan : score.tempo.beats.isNaN = false)
    (hordinary : score.IsOrdinary) (hchannel : channel ∈ score.channels) :
    (∃ part, (Part.addNotes (libraryOf score length) channel.name ⟨#[], []⟩
        channel.notes.toList).outcome = .ok part) ↔
      ∀ k note, Audible (libraryOf score length) channel.notes.toList 0 k note →
        HasFades score.settings ∧ score.channels.length < floatLimit := by
  have hcounts : ∀ note ∈ channel.notes, ∃ count,
      noteCount score.tempo.beats score.settings.sampleRate note = .ok count ∧
        ∃ x, ofInt count = .ok x := fun note hnote =>
    h.exists_noteCount (by omega) (by omega) hnan hordinary hchannel hnote
  have hrate : ∃ x, score.settings.sampleRate.toFloat = .ok x := by
    obtain ⟨x, -, hx, -⟩ := h.exists_rate (by omega) (by omega)
    exact ⟨x, hx⟩
  refine (@exists_addNotes_iff (libraryOf score length) channel.name ⟨#[], []⟩
    channel.notes.toList score.tempo.positive fun note hnote => ?_).trans ?_
  · obtain ⟨count, hcount, -⟩ := hcounts note (Array.mem_toList_iff.mp hnote)
    exact ⟨count, hcount⟩
  · refine forall₃_congr fun k note haudible => ?_
    obtain ⟨-, place, distance, hin, -⟩ := haudible
    have hnote : note ∈ channel.notes :=
      Array.mem_toList_iff.mp (List.mem_of_getElem? hin.note_eq)
    exact passes_iff_hasFades (hordinary channel hchannel note hnote) hchannel (hcounts note hnote)
      hrate

/-- **A buffer that has a length is filled** exactly where there is room, where the tempo is no
not-a-number or there is nothing to play, and where what is heard can be faded. -/
theorem exists_render_iff_canFill [Room] (hordinary : score.IsOrdinary)
    (hlength : score.bufferLength = .ok (.whole length)) :
    (∃ rendering, (score.render Waveform.all).outcome = .ok rendering) ↔ CanFill score length := by
  obtain ⟨rate, padding, playing, hlaid, hplaces⟩ := Score.bufferLength_eq_whole_iff.mp hlength
  rw [outcome_render hlength, exists_ofChannels_iff score.tempo.positive]
  constructor
  · rintro ⟨hroom, hparts⟩
    have htempo : ∀ channel ∈ score.channels, 0 < length → score.tempo.beats.isNaN = true →
        channel.notes = #[] := by
      intro channel hchannel hpos hnan
      obtain ⟨part, hpart⟩ := hparts channel hchannel
      cases hnotes : channel.notes.toList with
      | nil => exact Array.toList_eq_nil_iff.mp hnotes
      | cons head later =>
        rw [hnotes] at hpart
        obtain ⟨count, hcount⟩ := exists_noteCount_of_addNotes
          (show (⟨#[], []⟩ : Part).samples.size < (libraryOf score length).length from hpos) hpart
        cases hnan.symm.trans (isNaN_of_noteCount hcount)
    refine ⟨hroom, fun hpos hnan channel hchannel => htempo channel hchannel hpos hnan,
      fun channel hchannel k note haudible => ?_⟩
    have hpos : 0 < length := by
      obtain ⟨-, place, distance, -, hfits⟩ := haudible
      exact Nat.zero_lt_of_lt hfits
    have hnan : score.tempo.beats.isNaN = false := by
      refine Bool.eq_false_iff.mpr fun hnan => ?_
      rw [htempo channel hchannel hpos hnan] at haudible
      exact not_audible_nil haudible
    exact (exists_addNotes_iff_of_laid hlaid hplaces hpos hroom hnan hordinary hchannel).mp
      (hparts channel hchannel) k note haudible
  · intro hfill
    refine ⟨hfill.room, fun channel hchannel => ?_⟩
    rcases Nat.eq_zero_or_pos length with hnone | hpos
    · exact exists_addNotes_of_full (by simp [hnone])
    · by_cases hnan : score.tempo.beats.isNaN = true
      · rw [hfill.tempo hpos hnan channel hchannel]
        exact ⟨_, rfl⟩
      · exact (exists_addNotes_iff_of_laid hlaid hplaces hpos hfill.room
          (Bool.eq_false_iff.mpr hnan) hordinary hchannel).mpr (hfill.fades channel hchannel)

/-- **Which of the accepted values can be rendered with.** A score of ordinary notes has a buffer and
is rendered exactly where the rate is a whole number, the playing time and the samples of the padding
are numbers, and the buffer can be filled. Where there is a length at all, it is not negative; and
without one that is a whole number nothing is rendered. -/
theorem render_accepted_iff [Room] (hordinary : score.IsOrdinary) :
    (∀ n : Int, score.bufferLength = .ok (.whole n) → 0 ≤ n) ∧
      (∀ rendering, (score.render Waveform.all).outcome = .ok rendering →
        ∃ length : Nat, score.bufferLength = .ok (.whole length)) ∧
      ((∃ length : Nat, score.bufferLength = .ok (.whole length) ∧
          ∃ rendering, (score.render Waveform.all).outcome = .ok rendering) ↔
        ∃ rate padding playing, score.Laid rate padding playing ∧
          CanFill score (rate * playing.ceil + padding).toNat) := by
  refine ⟨fun n hn => ?_, fun rendering hrendering => ?_, ?_⟩
  · obtain ⟨rate, padding, playing, hlaid, rfl⟩ := Score.bufferLength_eq_whole_iff.mp hn
    exact hlaid.length_nonneg
  · obtain ⟨length, hlength, h⟩ := Report.outcome_bind_eq_ok.mp hrendering
    obtain ⟨-, size, rendered, rfl, -, -⟩ := ofChannels_eq_ok h
    exact ⟨size, hlength⟩
  · constructor
    · rintro ⟨length, hlength, hrenders⟩
      have hfill := (exists_render_iff_canFill hordinary hlength).mp hrenders
      obtain ⟨rate, padding, playing, hlaid, hplaces⟩ :=
        Score.bufferLength_eq_whole_iff.mp hlength
      rw [← Int.toNat_natCast length, hplaces] at hfill
      exact ⟨rate, padding, playing, hlaid, hfill⟩
    · rintro ⟨rate, padding, playing, hlaid, hfill⟩
      have hlength := Score.bufferLength_eq_whole_iff.mpr ⟨rate, padding, playing, hlaid, rfl⟩
      rw [← Int.toNat_of_nonneg hlaid.length_nonneg] at hlength
      exact ⟨_, hlength, (exists_render_iff_canFill hordinary hlength).mpr hfill⟩

/-- A piece of one note, and half a second of padding. -/
def plain : Score where
  tempo := .standard
  channels := [⟨"a", #[middle]⟩]
  settings := ⟨.whole 8000, .real 0.01, .real 0.1, .real 0.5, rfl, by decide +kernel,
    by decide +kernel, by decide +kernel⟩

theorem render_accepted_plain :
    plain.IsOrdinary ∧ plain.Laid 8000 4000 ⟨5404319552844595, -53⟩ ∧ CanFill plain 12000 ∧
      ∃ length : Nat, plain.bufferLength = .ok (.whole length) ∧
        ∃ rendering, (plain.render Waveform.all).outcome = .ok rendering := by
  have hordinary : plain.IsOrdinary := by
    intro channel hchannel note hnote
    obtain rfl := List.mem_singleton.mp hchannel
    obtain rfl : note = middle := by simpa using hnote
    exact ⟨by decide, ⟨by decide, by decide⟩, by decide, Waveform.square, rfl⟩
  have hlaid : plain.Laid 8000 4000 ⟨5404319552844595, -53⟩ := by
    obtain ⟨seconds, hseconds, hview⟩ := Option.map_eq_some_iff.mp
      (show plain.seconds.toOption.map view = some (.finite ⟨5404319552844595, -53⟩) by
        decide +kernel)
    exact ⟨rfl, toOption_eq_some_iff.mp (by decide +kernel), seconds,
      toOption_eq_some_iff.mp hseconds, hview⟩
  have hfades : HasFades plain.settings := by
    have hlimit := @two_pow_le_floatLimit 10 (by decide)
    exact ⟨⟨80, toOption_eq_some_iff.mp (by decide +kernel), by omega⟩, 800,
      toOption_eq_some_iff.mp (by decide +kernel), by omega⟩
  have hfill : CanFill plain 12000 := by
    have hlimit := @two_pow_le_floatLimit 1 (by decide)
    exact ⟨by decide, fun _ hnan => absurd hnan (by decide), fun _ _ _ _ _ =>
      ⟨hfades, show 1 < floatLimit by omega⟩⟩
  exact ⟨hordinary, hlaid, hfill, (render_accepted_iff hordinary).2.2.mpr
    ⟨8000, 4000, ⟨5404319552844595, -53⟩, hlaid, hfill⟩⟩

/-- A padding without an end is accepted, and with it no buffer has a length. -/
theorem bufferLength_endless :
    ∃ settings, Settings.ofFields
        [("padding_seconds", .number (.real (Float.ofBits 0x7ff0000000000000)))] = .ok settings ∧
      (Score.empty settings).IsOrdinary ∧
      (Score.empty settings).bufferLength = .error (.arithmetic .infinityToInteger) := by
  let settings : Settings := ⟨Settings.defaultRate, Settings.defaultAttack, Settings.defaultDecay,
    .real (Float.ofBits 0x7ff0000000000000), rfl, by decide +kernel, by decide +kernel,
    by decide +kernel⟩
  exact ⟨settings, rfl, fun channel hchannel => absurd hchannel List.not_mem_nil, rfl⟩

end Rendering

end Chiptune
