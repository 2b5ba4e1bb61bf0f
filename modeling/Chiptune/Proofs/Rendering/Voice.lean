import Chiptune.Proofs.Binary64.PowerOfTwo
import Chiptune.Proofs.Binary64.Quotient
import Chiptune.Rendering.Sound

/-!
# What it takes to sound a note

A note that has a voice can still be impossible to compute. Its volume is turned into a float, and so
is the number of channels that share the range of a sample. And a generator that divides by its
frequency needs one that is not zero: a note so low that the power of two for it is zero has none,
which is the case from 12900 semitones below the `A` of octave 4 on (`Note.frequency_ne_zero_iff`).

The fades, the rate and the count have to be floats as well. Nothing else can go wrong
(`sound_returns_iff`).
-/

namespace Chiptune

open Binary64

/-! ## Frequencies -/

theorem Note.frequency_eq_ok_iff {note : Note} {frequency : Float} :
    note.frequency = .ok frequency ↔ ∃ octaves factor,
      ofQuotient note.semitones 12 = .ok octaves ∧ powTwo? octaves = some factor ∧
        440.0 * factor = frequency := by
  unfold Note.frequency
  constructor
  · intro h
    obtain ⟨octaves, hoctaves, h⟩ := bind_eq_ok_iff.mp h
    cases hpower : powTwo? octaves with
    | none =>
      rw [hpower] at h
      cases h
    | some factor =>
      rw [hpower] at h
      exact ⟨octaves, factor, hoctaves, hpower, Except.ok.inj h⟩
  · rintro ⟨octaves, factor, hoctaves, hpower, rfl⟩
    refine bind_eq_ok_iff.mpr ⟨octaves, hoctaves, ?_⟩
    rw [hpower]
    rfl

theorem view_concert_pitch : ∃ d, view 440.0 = .finite d ∧ d.value = 440 :=
  ⟨⟨7740561859543040, -44⟩, rfl, by norm_num [Dyadic.value]⟩

/-- A sixteenth of an octave above the first power that is zero there is a float. -/
theorem representable_sixteenths : Representable (-1075 + 1 / 16) := by
  have hfits : Fits (17199 * 2 ^ 38) (-42) := ⟨by decide, by decide, Or.inl (by decide)⟩
  have hvalue : -(((17199 * 2 ^ 38 : Nat) : ℚ) * 2 ^ (-42 : Int)) = -1075 + 1 / 16 := by norm_num
  exact hvalue ▸ (representable_of_fits hfits).neg

/-- The octaves of a low note, as a float, are on the same side of the powers that are zero. -/
theorem view_octaves {semitones : Int} {octaves : Float}
    (h : ofQuotient semitones 12 = .ok octaves) :
    ∃ d, view octaves = .finite d ∧ (semitones ≤ -12900 → d.value ≤ -1075) ∧
      (-12900 < semitones → -1075 + 1 / 16 ≤ d.value) := by
  obtain ⟨d, hd, hnearest⟩ := exists_view_ofQuotient (by decide) h
  refine ⟨d, hd, fun hlow => ?_, fun hhigh => ?_⟩
  · refine (hnearest.adjoins _ (representable_natCast (n := 1075) (by decide)).neg).2 ?_
    have hcast : (semitones : ℚ) ≤ (-12900 : Int) := Int.cast_le.mpr hlow
    push_cast at hcast ⊢
    linarith
  · refine (hnearest.adjoins _ representable_sixteenths).1 ?_
    have hcast : ((-12899 : Int) : ℚ) ≤ semitones := Int.cast_le.mpr (by omega)
    push_cast at hcast ⊢
    linarith

/-- **How low a note can be** before its frequency is zero. -/
theorem Note.frequency_ne_zero_iff {note : Note} {frequency : Float}
    (h : note.frequency = .ok frequency) :
    (frequency == 0) = false ↔ -12900 < note.semitones := by
  obtain ⟨octaves, factor, hoctaves, hpower, rfl⟩ := frequency_eq_ok_iff.mp h
  obtain ⟨x, hx, hlow, hhigh⟩ := view_octaves hoctaves
  obtain ⟨a, ha, ha440⟩ := view_concert_pitch
  unfold powTwo? at hpower
  rw [hx] at hpower
  constructor
  · intro hne
    by_contra hle
    obtain ⟨b, hb, hb0⟩ := view_powDyadic_of_le (hlow (by omega)) hpower
    obtain ⟨c, hc, hnearest⟩ := exists_view_mul ha hb (by rw [hb0]; simp)
    rw [hb0, mul_zero] at hnearest
    refine (beq_zero_eq_false_iff hc).mp hne (hnearest.eq_zero (representable_value hc) le_rfl ?_)
    rw [mul_zero]
    positivity
  · intro hgt
    obtain ⟨b, hb, hleast⟩ := view_powDyadic_of_ge (hhigh hgt) hpower
    by_contra hzero
    obtain ⟨c, hc, hc0⟩ := exists_view_of_beq_zero (Bool.not_eq_false _ ▸ hzero)
    have hproduct := nearest_mul ha hb hc
    rw [ha440] at hproduct
    have hpos : (0 : ℚ) < 2 ^ (-1074 : Int) := by positivity
    have hlarge := (hproduct.adjoins _ representable_least).1 (by linarith)
    linarith

/-! ## Waveforms -/

namespace Waveform

/-- The timbres whose generators divide by the frequency. -/
def Divides (timbre : String) : Prop := timbre = "square" ∨ timbre = "sawtooth"

theorem find?_all (timbre : String) :
    all.find? timbre = if timbre = "noise" then some noise
      else if timbre = "sawtooth" then some sawtooth
      else if timbre = "square" then some square
      else if timbre = "sin" then some sine else none := by
  simp only [Registry.find?, all, List.reverse_cons, List.reverse_nil, List.nil_append,
    List.cons_append, List.find?_cons, List.find?_nil, beq_eq_decide, eq_comm (b := timbre)]
  split_ifs <;> simp_all

/-- **Where a generator of the library gives a signal.** -/
theorem exists_signal_iff {timbre : String} {generator : Generator} {frequency : Float}
    (h : all.find? timbre = some generator) :
    (∃ signal, generator (.real frequency) = .ok signal) ↔
      (Divides timbre → (frequency == 0) = false) := by
  have hdivides : ∀ signal : Float → Float → Float,
      (∃ result, (divide 1.0 frequency >>= fun period => Except.ok (signal period)) = .ok result) ↔
        (frequency == 0) = false := by
    intro signal
    simp only [bind_eq_ok_iff, divide_eq_ok_iff]
    exact ⟨fun ⟨_, _, ⟨hne, _⟩, _⟩ => hne, fun hne => ⟨_, _, ⟨hne, rfl⟩, rfl⟩⟩
  rw [find?_all] at h
  split_ifs at h with hnoise hsawtooth hsquare hsine
  · cases h
    refine iff_of_true ⟨_, rfl⟩ fun hdiv => ?_
    rw [hnoise] at hdiv
    exact absurd hdiv (not_or.mpr ⟨by decide, by decide⟩)
  · cases h
    have hdiv : Divides timbre := Or.inr hsawtooth
    rw [imp_iff_right hdiv]
    exact hdivides _
  · cases h
    have hdiv : Divides timbre := Or.inl hsquare
    rw [imp_iff_right hdiv]
    exact hdivides _
  · cases h
    refine iff_of_true ⟨_, rfl⟩ fun hdiv => ?_
    exact absurd hdiv (not_or.mpr ⟨hsquare, hsawtooth⟩)

end Waveform

namespace Rendering

/-! ## Notes -/

theorem voice_eq_ok_iff {registry : Registry Generator} {note : Note} {generator : Generator}
    {frequency : Float} :
    voice registry note = .ok (generator, frequency) ↔
      registry.find? note.timbre = some generator ∧ note.frequency = .ok frequency := by
  unfold voice Registry.get noteFrequency
  cases registry.find? note.timbre with
  | none => simp [bind, Except.bind]
  | some found =>
    cases note.frequency with
    | ok frequency' => simp [bind, Except.bind, pure, Except.pure]
    | error cause => simp [bind, Except.bind]

/-- What has no voice can be reported, if its numbers can be written. -/
theorem silenced_of_voice_error {registry : Registry Generator} {note : Note} {cause : Error}
    (hwritable : note.isWritable = true) (h : voice registry note = .error cause)
    (channel : String) :
    isSilencing cause = true ∧ (Event.noteSilenced channel cause note).isWritable = true := by
  obtain ⟨⟨hoctave, hduration⟩, hvolume⟩ : (Decimal.isWritable note.octave = true ∧
      Decimal.isWritable note.duration = true) ∧ Decimal.isWritable note.volume = true := by
    simpa only [Note.isWritable, Bool.and_eq_true] using hwritable
  refine ⟨?_, by simp [Event.isWritable, Event.numbers, hoctave, hduration, hvolume]⟩
  unfold voice Registry.get noteFrequency Error.stating at h
  rw [if_pos hoctave] at h
  cases hfound : registry.find? note.timbre with
  | none =>
    rw [hfound] at h
    cases h
    rfl
  | some generator =>
    rw [hfound] at h
    cases hfrequency : note.frequency with
    | ok frequency =>
      rw [hfrequency] at h
      cases h
    | error cause' =>
      rw [hfrequency] at h
      cases h
      rfl

theorem exists_amplitude_iff {note : Note} {channelCount : Nat} (hpos : 0 < channelCount) :
    (∃ peak, amplitude note channelCount = .ok peak) ↔
      note.volume.natAbs < 255 * floatLimit ∧ channelCount < floatLimit := by
  have hshare := @exists_ofQuotient_iff note.volume 255 (by decide)
  have hcount := @exists_ofInt_iff channelCount
  rw [Int.natAbs_natCast] at hcount
  rw [← hshare, ← hcount]
  unfold amplitude
  simp only [bind_eq_ok_iff, divide_eq_ok_iff]
  constructor
  · rintro ⟨peak, share, hshare, count, hcount, -⟩
    exact ⟨⟨share, hshare⟩, count, hcount⟩
  · rintro ⟨⟨share, hshare⟩, count, hcount⟩
    exact ⟨_, share, hshare, count, hcount, ofInt_ne_zero (by omega) hcount, rfl⟩

variable {setup : Setup} {note : Note} {generator : Generator} {frequency : Float} {count : Int}

theorem exists_fadeLength_iff {samples : Int} :
    (∃ x, fadeLength samples = .ok x) ↔ samples < floatLimit := by
  have hlimit := @two_pow_le_floatLimit 0 (by decide)
  unfold fadeLength
  split
  · rw [exists_ofInt_iff]
    omega
  · exact iff_of_true ⟨0, rfl⟩ (by omega)

/-- Whether the fades of notes take numbers of samples that are floats. -/
def HasFades (settings : Settings) : Prop :=
  (∃ samples, settings.attackSamples = .ok samples ∧ samples < floatLimit) ∧
    ∃ samples, settings.decaySamples = .ok samples ∧ samples < floatLimit

/-- **What it takes to sound a note.** -/
theorem sound_returns_iff :
    (∃ value, sound setup note count generator frequency = .ok value) ↔
      (∃ peak, amplitude note setup.channelCount = .ok peak) ∧ HasFades setup.settings ∧
        (∃ x, ofInt count = .ok x) ∧ (∃ x, setup.settings.sampleRate.toFloat = .ok x) ∧
          ∃ signal, generator (.real frequency) = .ok signal := by
  unfold sound HasFades
  simp only [bind_eq_ok_iff, ← exists_fadeLength_iff]
  constructor
  · rintro ⟨value, peak, hpeak, attack, hattack, decay, hdecay, length, hlength, fadeIn, hfadeIn,
      fadeOut, hfadeOut, rate, hrate, signal, hsignal, -⟩
    exact ⟨⟨peak, hpeak⟩, ⟨⟨attack, hattack, fadeIn, hfadeIn⟩, decay, hdecay, fadeOut, hfadeOut⟩,
      ⟨length, hlength⟩, ⟨rate, hrate⟩, signal, hsignal⟩
  · rintro ⟨⟨peak, hpeak⟩, ⟨⟨attack, hattack, fadeIn, hfadeIn⟩, decay, hdecay, fadeOut, hfadeOut⟩,
      ⟨length, hlength⟩, ⟨rate, hrate⟩, signal, hsignal⟩
    exact ⟨_, peak, hpeak, attack, hattack, decay, hdecay, length, hlength, fadeIn, hfadeIn,
      fadeOut, hfadeOut, rate, hrate, signal, hsignal, rfl⟩

/-- What is left of it where the fades, the rate and the count are known. -/
theorem exists_sound_iff {attack decay : Int}
    (hattack : setup.settings.attackSamples = .ok attack)
    (hdecay : setup.settings.decaySamples = .ok decay)
    (hfadeIn : ∃ x, fadeLength attack = .ok x) (hfadeOut : ∃ x, fadeLength decay = .ok x)
    (hcount : ∃ x, ofInt count = .ok x) (hrate : ∃ x, setup.settings.sampleRate.toFloat = .ok x) :
    (∃ value, sound setup note count generator frequency = .ok value) ↔
      (∃ peak, amplitude note setup.channelCount = .ok peak) ∧
        ∃ signal, generator (.real frequency) = .ok signal := by
  have hfades : HasFades setup.settings :=
    ⟨⟨attack, hattack, exists_fadeLength_iff.mp hfadeIn⟩, decay, hdecay,
      exists_fadeLength_iff.mp hfadeOut⟩
  rw [sound_returns_iff, and_iff_right hfades, and_iff_right hcount, and_iff_right hrate]

end Rendering
end Chiptune
