import Chiptune.Proofs.Binary64.Between
import Chiptune.Proofs.Rendering.Completion
import Chiptune.Proofs.Rendering.Saturation
import Chiptune.Proofs.Rendering.Voice

/-!
# Headroom

With volumes up to 255 and a signal between -1 and 1, a channel is given half the range of a sample,
shared out among the channels. What it contributes is rounded, and the contributions of `n` channels
add up to at most `n` times the rounded share (`loudest`). Where shares are rounded up this can be
past the range of a sample: a single channel has a share of 127.5, which is rounded to 128.

So the mix is inside the range for some numbers of channels and not for others, and which these are is
said by the rounded share alone (`mix_inside_iff`).

The level of a note goes through six roundings before the last. None of them matters: the share that
it is rounded to has a float above it that is rounded to the same (`exists_ceiling`), and no step
leads past that float.
-/

namespace Chiptune
namespace Binary64

/-- Rounding to whole numbers does the same on both sides of zero. -/
theorem RoundsTo.neg {q : ℚ} {n : Int} (h : RoundsTo q n) : RoundsTo (-q) (-n) := by
  obtain ⟨hlow, hhigh, hodd⟩ := h
  refine ⟨by push_cast; linarith, by push_cast; linarith, fun hn => ?_⟩
  obtain ⟨hlow, hhigh⟩ := hodd (by omega)
  exact ⟨by push_cast; linarith, by push_cast; linarith⟩

end Binary64

/-- Whether all generators stay between -1 and 1. -/
def Registry.IsBounded (registry : Registry Generator) : Prop :=
  ∀ timbre generator, registry.find? timbre = some generator →
    ∀ frequency signal, generator frequency = .ok signal →
      ∀ time, Binary64.Between (signal time) (-1) 1

/-- Whether a note has a volume that the range of a sample is made for. -/
def Note.IsNominal (note : Note) : Prop := 0 ≤ note.volume ∧ note.volume ≤ 255

namespace Rendering

open Binary64

/-! ## The share of a channel -/

/-- The greatest sample that one of so many channels contributes: half the range, shared out and
rounded, ties to even. -/
def loudest (channelCount : Nat) : Nat := roundQuotient 255 (2 * channelCount)

variable {n : Nat}

theorem loudest_spec (hn : 0 < n) :
    (2 * loudest n - 1) * n ≤ (255 : Int) ∧ (255 : Int) ≤ (2 * loudest n + 1) * n ∧
      (loudest n % 2 = 1 → (2 * loudest n - 1) * n < (255 : Int) ∧
        (255 : Int) < (2 * loudest n + 1) * n) := by
  have hdiv := Nat.div_add_mod 255 (2 * n)
  have hmod : 255 % (2 * n) < 2 * n := Nat.mod_lt _ (by omega)
  unfold loudest roundQuotient
  generalize 255 / (2 * n) = low at *
  generalize 255 % (2 * n) = rest at *
  have hdiv : 2 * (n : Int) * low + rest = 255 := by exact_mod_cast hdiv
  simp only
  split
  · exact ⟨by linarith, by linarith, fun _ => ⟨by linarith, by linarith⟩⟩
  · split
    · push_cast
      exact ⟨by linarith, by linarith, fun _ => ⟨by linarith, by linarith⟩⟩
    · split
      · exact ⟨by linarith, by linarith, fun hodd => by omega⟩
      · push_cast
        exact ⟨by linarith, by linarith, fun hodd => by omega⟩

theorem loudest_of_ge (hn : 256 ≤ n) : loudest n = 0 := by
  have hlow : 255 / (2 * n) = 0 := Nat.div_eq_of_lt (by omega)
  have hmod : 255 % (2 * n) = 255 := Nat.mod_eq_of_lt (by omega)
  unfold loudest roundQuotient
  simp only [hlow, hmod]
  rw [if_pos (by omega)]

theorem mul_loudest_le (n : Nat) : n * loudest n ≤ 254 := by
  rcases Nat.lt_or_ge n 256 with hlt | hge
  · have hall : ∀ n : Fin 256, n.val * loudest n.val ≤ 254 := by decide +kernel
    exact hall ⟨n, hlt⟩
  · rw [loudest_of_ge hge]
    omega

theorem loudest_le (hn : 0 < n) : loudest n ≤ 254 :=
  (Nat.le_mul_of_pos_left _ hn).trans (mul_loudest_le n)

/-- A float that the share of a channel is not above, and that is rounded to what the share is rounded
to. The number of channels may have been rounded before. -/
structure Ceiling (channelCount : Nat) (most : ℚ) : Prop where
  isBound : IsBound most
  nonneg : 0 ≤ most
  rounds : RoundsTo most (loudest channelCount)
  share_le : ∀ d, Nearest channelCount d → 255 / 2 / d ≤ most

theorem exists_ceiling (hn : 0 < n) : ∃ most, Ceiling n most := by
  have hn0 : (0 : ℚ) < n := by exact_mod_cast hn
  have hsmall := loudest_le hn
  rcases Nat.lt_or_ge n 256 with hlt | hge
  · obtain ⟨-, hhigh, hodd⟩ := loudest_spec hn
    have hexact : ∀ d, Nearest n d → d = n := fun d hd =>
      hd.eq_of_representable (representable_natCast (by omega))
    rcases Nat.mod_two_eq_zero_or_one (loudest n) with heven | hodd'
    · -- Half way to the next number is rounded back to an even one.
      have hmost := @isBound_div_two_pow (2 * loudest n + 1) 1 (by omega) (by decide)
      push_cast at hmost
      refine ⟨_, hmost, by positivity, ⟨by push_cast; linarith, by push_cast; linarith, by omega⟩,
        fun d hd => ?_⟩
      rw [hexact d hd, div_le_iff₀ hn0]
      have : (255 : ℚ) ≤ (2 * loudest n + 1) * n := by exact_mod_cast hhigh
      linarith
    · -- The share of at most 255 channels is not so near to half way as this.
      have hmost := @isBound_div_two_pow (512 * loudest n + 255) 9 (by omega) (by decide)
      push_cast at hmost
      refine ⟨_, hmost, by positivity, ⟨by push_cast; linarith, by push_cast; linarith,
        fun _ => ?_⟩, fun d hd => ?_⟩
      · exact ⟨by push_cast; linarith, by push_cast; linarith⟩
      · rw [hexact d hd, div_le_iff₀ hn0]
        have : (256 : ℚ) ≤ (2 * loudest n + 1) * n := by exact_mod_cast (hodd hodd').2
        have : (n : ℚ) ≤ 256 := by exact_mod_cast hlt.le
        linarith
  · have hmost := @isBound_div_two_pow 1 1 (by decide) (by decide)
    refine ⟨_, hmost, by positivity, ?_, fun d hd => ?_⟩
    · rw [loudest_of_ge hge]
      exact ⟨by norm_num, by norm_num, by omega⟩
    · have hd0 : ((256 : Nat) : ℚ) ≤ d :=
        (hd.adjoins _ (representable_natCast (by decide))).1 (by exact_mod_cast hge)
      push_cast at hd0 ⊢
      rw [div_le_iff₀ (by linarith)]
      linarith

/-! ## Envelopes -/

section

variable {shape : Envelope Float} {phase : Float} {most : ℚ} {a b c f : Binary64.Dyadic}

theorem between_rising (hamplitude : Between shape.amplitude 0 most) (hmost : IsBound most)
    (hattack : view shape.attack = .finite a) (hphase : view phase = .finite f)
    (hf0 : 0 ≤ f.value) : Between (shape.rising phase) 0 most := by
  unfold Envelope.rising
  split
  · rename_i h
    exact hamplitude.mul_share
      (between_div_of_lt hphase hattack hf0 ((lt_iff_value_lt hphase hattack).mp h.2)) hmost
  · exact hamplitude

/-- **An envelope stays below its amplitude**, as long as the note lasts. -/
theorem between_value (hamplitude : Between shape.amplitude 0 most) (hmost : IsBound most)
    (hattack : view shape.attack = .finite a) (hdecay : view shape.decay = .finite b)
    (hcount : view shape.count = .finite c) (hphase : view phase = .finite f)
    (hf0 : 0 ≤ f.value) (hfc : f.value ≤ c.value) : Between (shape.value phase) 0 most := by
  have hrising := between_rising hamplitude hmost hattack hphase hf0
  unfold Envelope.value
  simp only
  split
  · rename_i h
    obtain ⟨r, hr, hr0, -⟩ := between_sub hcount hphase isBound_zero (isBound_value hcount)
      (sub_nonneg.mpr hfc) (sub_le_self _ hf0)
    exact hrising.mul_share (between_div_of_lt hr hdecay hr0 ((lt_iff_value_lt hr hdecay).mp h.2))
      hmost
  · exact hrising

theorem exists_view_fadeLength {samples : Int} {x : Float} (h : fadeLength samples = .ok x) :
    ∃ d, view x = .finite d := by
  unfold fadeLength at h
  split at h
  · obtain ⟨d, hd, -⟩ := exists_view_ofInt h
    exact ⟨d, hd⟩
  · cases h
    exact ⟨_, view_zero⟩

end

/-! ## Levels -/

section

variable {registry : Registry Generator} {settings : Settings} {tempo : Number} {note : Note}
variable {most : ℚ} {place distance : Nat}

/-- An amplitude is half the range or less, over the number of channels. -/
structure IsPeak (peak : Float) (channelCount : Nat) (p d : ℚ) : Prop where
  nonneg : 0 ≤ p
  le : p ≤ 255 / 2
  nearest : Nearest channelCount d
  one_le : 1 ≤ d
  between : ∀ low high, IsBound low → IsBound high → low ≤ p / d → p / d ≤ high →
    Between peak low high

theorem exists_isPeak {peak : Float} (hvolume : note.IsNominal) (hn : 0 < n)
    (h : amplitude note n = .ok peak) :
    ∃ p d, IsPeak peak n p d ∧ (note.volume = 255 → p = 255 / 2) := by
  obtain ⟨share, hshare, h⟩ := bind_eq_ok_iff.mp h
  obtain ⟨count, hcount, h⟩ := bind_eq_ok_iff.mp h
  obtain ⟨-, rfl⟩ := divide_eq_ok_iff.mp h
  have hfull : ((Note.fullVolume : Nat) : ℚ) = 255 := rfl
  have hrange : view (255.0 * 0.5) = .finite ⟨255 * 2 ^ 45, -46⟩ := by decide +kernel
  have hhalf : Binary64.Dyadic.value ⟨255 * 2 ^ 45, -46⟩ = 255 / 2 := by
    norm_num [Binary64.Dyadic.value]
  have hbound : IsBound (255 / 2) := by
    simpa using @isBound_div_two_pow 255 1 (by decide) (by decide)
  obtain ⟨a, ha, hnearest⟩ := exists_view_ofQuotient (by decide) hshare
  rw [hfull] at hnearest
  obtain ⟨hvolume0, hvolume1⟩ := hvolume
  have hvolume0 : (0 : ℚ) ≤ note.volume := by exact_mod_cast hvolume0
  have hvolume1 : (note.volume : ℚ) ≤ 255 := by exact_mod_cast hvolume1
  obtain ⟨ha0, ha1⟩ := hnearest.bounds (show 1 < 2 ^ 53 by decide) (by positivity)
    (by push_cast; linarith)
  push_cast at ha1
  -- The product is bounded as it is; at full volume both bounds are half the range.
  have hproduct : ∀ low, IsBound low → low ≤ 255 / 2 * a.value →
      Between (255.0 * 0.5 * share) low (255 / 2) := fun low hlow hle =>
    between_mul hrange ha hlow hbound (by rwa [hhalf]) (by rw [hhalf]; linarith)
  obtain ⟨d, hd, hdn⟩ := exists_view_ofInt hcount
  have hd1 := one_le_value_ofInt (by omega) hcount hd
  obtain ⟨p, hp, hp0, hp1⟩ := hproduct 0 isBound_zero (by positivity)
  refine ⟨p.value, d.value, ⟨hp0, hp1, hdn, hd1, fun low high hlow hhigh => ?_⟩, fun hvolume => ?_⟩
  · exact between_div hp hd (by linarith) hlow hhigh
  · have hone : a.value = 1 := by
      refine hnearest.eq_of_representable ?_ |>.trans ?_
      · rw [hvolume]
        simpa using isBound_one.1
      · rw [hvolume]
        norm_num
    obtain ⟨p', hp', hlow, -⟩ := hproduct (255 / 2) hbound (by rw [hone, mul_one])
    cases hp.symm.trans hp'
    exact le_antisymm hp1 hlow

theorem between_amplitude {peak : Float} (hvolume : note.IsNominal) (hn : 0 < n)
    (hmost : Ceiling n most) (h : amplitude note n = .ok peak) : Between peak 0 most := by
  obtain ⟨p, d, hpeak, -⟩ := exists_isPeak hvolume hn h
  have hd0 := hpeak.one_le
  have hp0 := hpeak.nonneg
  refine hpeak.between _ _ isBound_zero hmost.isBound (by positivity) ?_
  exact (div_le_div_of_nonneg_right hpeak.le (by linarith)).trans (hmost.share_le _ hpeak.nearest)

theorem Ceiling.between_zero (h : Ceiling n most) : Between 0 (-most) most :=
  ⟨_, view_zero, by simpa [Binary64.Dyadic.value] using h.nonneg,
    by simpa [Binary64.Dyadic.value] using h.nonneg⟩

/-- What the level of a note is computed from, if it is computed. -/
structure Shaped (registry : Registry Generator) (settings : Settings) (tempo : Number)
    (channelCount : Nat) (note : Note) where
  generator : Generator
  frequency : Number
  signal : Float → Float
  count : Int
  attack : Int
  decay : Int
  shape : Envelope Float
  find_eq : registry.find? note.timbre = some generator
  signal_eq : generator frequency = .ok signal
  noteCount_eq : noteCount tempo settings.sampleRate note = .ok count
  count_eq : ofInt count = .ok shape.count
  amplitude_eq : amplitude note channelCount = .ok shape.amplitude
  attackSamples_eq : settings.attackSamples = .ok attack
  attack_eq : fadeLength attack = .ok shape.attack
  decaySamples_eq : settings.decaySamples = .ok decay
  decay_eq : fadeLength decay = .ok shape.decay

theorem noteLevel_eq_ok {level : Float}
    (h : noteLevel registry settings tempo n note distance = .ok level) :
    ((note.volume = 0 ∨ registry.find? note.timbre = none ∨
        ∀ frequency, note.frequency ≠ .ok frequency) ∧ level = 0) ∨
      ∃ (shaped : Shaped registry settings tempo n note) (time : Float),
        level = shaped.signal time * shaped.shape.value (position distance) := by
  unfold noteLevel at h
  split at h
  · rename_i hvolume
    cases h
    exact .inl ⟨.inl hvolume, rfl⟩
  · split at h
    · rename_i generator frequency hgenerator hfrequency
      obtain ⟨count, hcount, h⟩ := bind_eq_ok_iff.mp h
      obtain ⟨length, hlength, h⟩ := bind_eq_ok_iff.mp h
      obtain ⟨peak, hpeak, h⟩ := bind_eq_ok_iff.mp h
      obtain ⟨attack, hattack, h⟩ := bind_eq_ok_iff.mp h
      obtain ⟨fadeIn, hfadeIn, h⟩ := bind_eq_ok_iff.mp h
      obtain ⟨decay, hdecay, h⟩ := bind_eq_ok_iff.mp h
      obtain ⟨fadeOut, hfadeOut, h⟩ := bind_eq_ok_iff.mp h
      obtain ⟨rate, -, h⟩ := bind_eq_ok_iff.mp h
      obtain ⟨signal, hsignal, h⟩ := bind_eq_ok_iff.mp h
      cases h
      exact .inr ⟨⟨generator, _, signal, count, attack, decay, ⟨length, peak, fadeIn, fadeOut⟩,
        hgenerator, hsignal, hcount, hlength, hpeak, hattack, hfadeIn, hdecay, hfadeOut⟩, _, rfl⟩
    · rename_i hnone
      cases h
      refine .inl ⟨.inr ?_, rfl⟩
      cases hgenerator : registry.find? note.timbre with
      | none => exact .inl rfl
      | some generator => exact .inr fun frequency => hnone generator frequency hgenerator

/-- **The level of a note stays below the share of its channel**, on either side of zero. -/
theorem between_noteLevel {level : Float} {count : Int} (hregistry : registry.IsBounded)
    (hvolume : note.IsNominal) (hn : 0 < n) (hmost : Ceiling n most) (hdistance : distance < 2 ^ 53)
    (hcount : noteCount tempo settings.sampleRate note = .ok count) (hlt : (distance : Int) < count)
    (h : noteLevel registry settings tempo n note distance = .ok level) :
    Between level (-most) most := by
  rcases noteLevel_eq_ok h with ⟨-, rfl⟩ | ⟨shaped, time, rfl⟩
  · exact hmost.between_zero
  · obtain rfl : count = shaped.count := Except.ok.inj (hcount.symm.trans shaped.noteCount_eq)
    obtain ⟨c, hc, hnearest⟩ := exists_view_ofInt shaped.count_eq
    have hword : (distance.toUInt64).toNat = distance :=
      Nat.mod_eq_of_lt (hdistance.trans (by decide))
    obtain ⟨f, hf, hvalue⟩ := @exists_view_toFloat distance.toUInt64 (by rw [hword]; exact hdistance)
    rw [hword] at hvalue
    have hfc : f.value ≤ c.value := by
      rw [hvalue]
      exact (hnearest.adjoins _ (representable_natCast hdistance)).1 (by exact_mod_cast hlt.le)
    obtain ⟨a, ha⟩ := exists_view_fadeLength shaped.attack_eq
    obtain ⟨b, hb⟩ := exists_view_fadeLength shaped.decay_eq
    have henvelope := between_value (between_amplitude hvolume hn hmost shaped.amplitude_eq)
      hmost.isBound ha hb hc hf (by rw [hvalue]; positivity) hfc
    exact (hregistry _ _ shaped.find_eq _ _ shaped.signal_eq _).swing_mul henvelope hmost.isBound

/-- Bounds that are rounded to samples are kept by rounding to a sample. -/
theorem toInt_toSample_bounds {level : Float} {low high : ℚ} {least loud : Int}
    (hlow : RoundsTo low least) (hhigh : RoundsTo high loud) (hleast : -254 ≤ least)
    (hloud : loud ≤ 254) (h : Between level low high) :
    least ≤ (toSample level).toInt ∧ (toSample level).toInt ≤ loud := by
  obtain ⟨d, hd, hle, hle'⟩ := h
  have hbelow := hlow.mono d.round_spec hle
  have habove := d.round_spec.mono hhigh hle'
  rw [toInt_toSample (toInt_of_view hd)]
  unfold word
  rw [if_pos (by omega)]
  exact ⟨hbelow, habove⟩

/-- What is heard of a channel. -/
theorem abs_toInt_le_of_heard {channel : Channel} {value : Int32} (hregistry : registry.IsBounded)
    (hvolumes : ∀ note ∈ channel.notes, note.IsNominal) (hn : 0 < n)
    (htempo : tempo.isNotPositive = false) (hplace : place < 2 ^ 53)
    (h : Heard registry settings tempo n channel.notes.toList place value) :
    |value.toInt| ≤ loudest n := by
  obtain ⟨most, hmost⟩ := exists_ceiling hn
  have hsmall := loudest_le hn
  obtain ⟨level, hlevel, rfl⟩ := h.exists_contributes htempo
  refine abs_le.mpr (toInt_toSample_bounds hmost.rounds.neg hmost.rounds (by omega) (by omega) ?_)
  by_cases hany : ∃ k note distance,
      InWindow tempo settings.sampleRate channel.notes.toList k note place distance
  · obtain ⟨k, note, distance, hin⟩ := hany
    obtain ⟨first, hfirst, hdistance⟩ := hin.starts
    obtain ⟨count, hcount, hlt⟩ := hin.lasts
    have hfirst0 := start_nonneg htempo settings.rate_positive hfirst
    have hmem : note ∈ channel.notes :=
      Array.mem_toList_iff.mp (List.mem_of_getElem? hin.note_eq)
    exact between_noteLevel hregistry (hvolumes note hmem) hn hmost (by omega) hcount hlt
      (hlevel.inside k note distance hin)
  · rw [hlevel.outside fun k note distance hin => hany ⟨k, note, distance, hin⟩]
    exact hmost.between_zero

end

/-! ## The mix -/

theorem abs_sum_le {channels : List Channel} {values : List Int32} {loud : Nat}
    {R : Channel → Int32 → Prop} (h : List.Forall₂ R channels values)
    (hle : ∀ channel ∈ channels, ∀ value, R channel value → |value.toInt| ≤ loud) :
    |(values.map Int32.toInt).sum| ≤ channels.length * loud := by
  induction h with
  | nil => simp
  | @cons channel value rest later hvalue _ ih =>
    obtain ⟨hfirst, hrest⟩ := List.forall_mem_cons.mp hle
    have hvalue := hfirst value hvalue
    rw [List.map_cons, List.sum_cons, List.length_cons]
    push_cast
    calc |value.toInt + (later.map Int32.toInt).sum|
        ≤ |value.toInt| + |(later.map Int32.toInt).sum| := abs_add_le _ _
      _ ≤ (rest.length + 1) * loud := by linarith [ih hrest]

theorem sum_eq_of_forall₂ {channels : List Channel} {values : List Int32} {loud : Nat}
    {R : Channel → Int32 → Prop} (h : List.Forall₂ R channels values)
    (heq : ∀ channel ∈ channels, ∀ value, R channel value → value.toInt = loud) :
    (values.map Int32.toInt).sum = channels.length * loud := by
  induction h with
  | nil => simp
  | @cons channel value rest later hvalue _ ih =>
    obtain ⟨hfirst, hrest⟩ := List.forall_mem_cons.mp heq
    rw [List.map_cons, List.sum_cons, List.length_cons, ih hrest, hfirst value hvalue]
    push_cast
    ring

/-- A piece of so many channels with nominal volumes and signals, and what has come of it on some
machine. -/
structure NominalPiece (channelCount : Nat) where
  [room : Room]
  registry : Registry Generator
  settings : Settings
  tempo : Number
  size : Nat
  channels : List Channel
  mixed : Mix
  rendering : Rendering
  length_eq : channels.length = channelCount
  isBounded : registry.IsBounded
  isNominal : ∀ channel ∈ channels, ∀ note ∈ channel.notes, note.IsNominal
  mixes : ((Mix.silence size).addChannels ⟨tempo, size, channels.length, settings, registry⟩
    channels).outcome = .ok mixed
  renders : (ofChannels registry settings tempo (.whole size) channels).outcome = .ok rendering

namespace NominalPiece

/-- The sum of the channels at a place, before it is cut. -/
def mixAt (piece : NominalPiece n) (place : Nat) : Int := (piece.mixed.sums.getD place 0).toInt

/-- Whether nothing is cut: the sums are in the range of a sample, and so they are the samples. -/
def Unclipped (piece : NominalPiece n) : Prop :=
  ∀ place < piece.size, (-128 ≤ piece.mixAt place ∧ piece.mixAt place ≤ 127) ∧
    piece.rendering.samples[place]?.map Int8.toInt = some (piece.mixAt place)

/-- At every place the mix is the sum of what is heard of the channels, and the sample is the mix,
cut. -/
theorem exists_heard (piece : NominalPiece n) {place : Nat} (hplace : place < piece.size) :
    ∃ values : List Int32,
      List.Forall₂ (fun channel value => Heard piece.registry piece.settings piece.tempo
        piece.channels.length channel.notes.toList place value) piece.channels values ∧
      piece.mixAt place = values.sum.toInt ∧
      piece.rendering.samples[place]?.map Int8.toInt = some (cut (piece.mixAt place)) := by
  let room : Room := piece.room
  obtain ⟨size, mixed, hlength, hsize, hmixed, hplaces⟩ := inNormalForm_ofChannels piece.renders
  obtain rfl : piece.size = size := Int.ofNat.inj (Number.whole.inj hlength)
  obtain rfl : piece.mixed = mixed := Except.ok.inj (piece.mixes.symm.trans hmixed)
  obtain ⟨values, hvalues, hsum, hsample⟩ := hplaces place (by omega)
  have hmix : piece.mixAt place = values.sum.toInt := by
    unfold mixAt
    rw [Array.getD_eq_getD_getElem?, hsum]
    rfl
  refine ⟨values, hvalues, hmix, ?_⟩
  rw [Array.getElem?_eq_getElem (by omega), Option.map_some, hsample, hmix]
  rfl

theorem abs_mixAt_le (piece : NominalPiece n) {place : Nat} (hplace : place < piece.size) :
    |piece.mixAt place| ≤ n * loudest n := by
  let room : Room := piece.room
  obtain ⟨htempo, -⟩ := ofChannels_eq_ok piece.renders
  obtain ⟨hroom, -⟩ := (exists_ofChannels_iff htempo).mp ⟨_, piece.renders⟩
  have hlimit : Room.limit ≤ 2 ^ 55 := Room.limit_le
  obtain ⟨values, hvalues, hmix, -⟩ := piece.exists_heard hplace
  have hsum := abs_sum_le hvalues fun channel hchannel value hvalue =>
    abs_toInt_le_of_heard piece.isBounded (piece.isNominal channel hchannel)
      (List.length_pos_of_mem hchannel) htempo (by omega) hvalue
  have hmost := mul_loudest_le n
  rw [piece.length_eq] at hsum
  rw [hmix, toInt_sum, Int.bmod_eq_of_le]
  · exact hsum
  · have := (abs_le.mp hsum).1
    push_cast at *
    omega
  · have := (abs_le.mp hsum).2
    push_cast at *
    omega

/-- The sample is the sum, cut. -/
theorem sample_eq (piece : NominalPiece n) {place : Nat} (hplace : place < piece.size) :
    piece.rendering.samples[place]?.map Int8.toInt = some (cut (piece.mixAt place)) := by
  obtain ⟨-, -, -, hsample⟩ := piece.exists_heard hplace
  exact hsample

theorem unclipped_of_inside (piece : NominalPiece n)
    (h : ∀ place < piece.size, -128 ≤ piece.mixAt place ∧ piece.mixAt place ≤ 127) :
    piece.Unclipped := by
  intro place hplace
  refine ⟨h place hplace, ?_⟩
  rw [piece.sample_eq hplace]
  obtain ⟨hlow, hhigh⟩ := h place hplace
  unfold cut
  congr 1
  omega

end NominalPiece

/-! ## The loudest piece -/

theorem find?_flat {generator : Generator} {frequency : Number} {signal : Float → Float}
    {timbre : String} (hgenerator : flat.find? timbre = some generator)
    (hsignal : generator frequency = .ok signal) : signal = fun _ => 1.0 := by
  obtain ⟨entry, hentry, rfl⟩ := Option.map_eq_some_iff.mp hgenerator
  have hmem := List.mem_reverse.mp (List.mem_of_find?_eq_some hentry)
  rw [flat, List.mem_singleton] at hmem
  subst hmem
  exact (Except.ok.inj hsignal).symm

theorem view_unit : ∃ d, view 1.0 = .finite d ∧ d.value = 1 :=
  ⟨⟨2 ^ 52, -52⟩, by decide +kernel, by norm_num [Binary64.Dyadic.value]⟩

theorem isBounded_flat : flat.IsBounded := by
  intro timbre generator hgenerator frequency signal hsignal time
  obtain ⟨d, hd, hvalue⟩ := view_unit
  rw [find?_flat hgenerator hsignal]
  exact ⟨d, hd, by rw [hvalue]; norm_num, hvalue.le⟩

/-- A float that the share of a channel is not below, and that is rounded to what the share is rounded
to. -/
theorem exists_floor (hn : 0 < n) (hlt : n < 256) (hpos : 0 < loudest n) :
    ∃ least, IsBound least ∧ RoundsTo least (loudest n) ∧ least ≤ 255 / 2 / n := by
  have hn0 : (0 : ℚ) < n := by exact_mod_cast hn
  have hsmall := loudest_le hn
  obtain ⟨hlow, -, hodd⟩ := loudest_spec hn
  obtain ⟨below, hbelow⟩ := Nat.exists_eq_succ_of_ne_zero hpos.ne'
  rw [hbelow] at hlow hodd hsmall ⊢
  push_cast at hlow hodd
  rcases Nat.mod_two_eq_zero_or_one (below + 1) with heven | hodd'
  · have hleast := @isBound_div_two_pow (2 * below + 1) 1 (by omega) (by decide)
    push_cast at hleast
    refine ⟨_, hleast, ⟨by push_cast; linarith, by push_cast; linarith, by omega⟩, ?_⟩
    rw [le_div_iff₀ hn0]
    have : (2 * ((below : ℚ) + 1) - 1) * n ≤ 255 := by exact_mod_cast hlow
    linarith
  · have hleast := @isBound_div_two_pow (512 * below + 257) 9 (by omega) (by decide)
    push_cast at hleast
    refine ⟨_, hleast, ⟨by push_cast; linarith, by push_cast; linarith, fun _ => ?_⟩, ?_⟩
    · exact ⟨by push_cast; linarith, by push_cast; linarith⟩
    · rw [le_div_iff₀ hn0]
      have : (2 * ((below : ℚ) + 1) - 1) * n + 1 ≤ 255 := by exact_mod_cast (hodd hodd').1
      have : (n : ℚ) ≤ 256 := by exact_mod_cast hlt.le
      linarith

theorem frequency_tone : ∃ frequency, (tone 255).frequency = .ok frequency :=
  isSome_toOption_iff.mp (by decide +kernel)

/-- Where nothing is faded, an envelope is its amplitude. -/
theorem value_unfaded {shape : Envelope Float} (hattack : shape.attack = 0)
    (hdecay : shape.decay = 0) (phase : Float) : shape.value phase = shape.amplitude := by
  have hirrefl : ¬ (0 : Float) < 0 := fun h => lt_irrefl _ ((lt_iff_value_lt view_zero view_zero).mp h)
  unfold Envelope.value Envelope.rising
  simp only [hattack, hdecay, hirrefl, false_and, if_false]

theorem fadeLength_unfaded {samples : Int} {length : Float}
    (hsamples : unfaded.samples (.whole 0) = .ok samples) (h : fadeLength samples = .ok length) :
    length = 0 := by
  obtain rfl : (0 : Int) = samples := Except.ok.inj hsamples
  exact (Except.ok.inj h).symm

/-- The level of a tone of full volume is the share of its channel, rounded. -/
theorem between_level_tone {level : Float} {least most : ℚ} (hn : 0 < n) (hlt : n < 256)
    (hleast : IsBound least) (hmost : IsBound most) (hle : least ≤ 255 / 2 / n)
    (hle' : 255 / 2 / n ≤ most)
    (h : noteLevel flat unfaded (.whole 60) n (tone 255) 0 = .ok level) :
    Between level least most := by
  obtain ⟨frequency, hfrequency⟩ := frequency_tone
  rcases noteLevel_eq_ok h with ⟨hsilent, -⟩ | ⟨shaped, time, rfl⟩
  · rcases hsilent with hzero | hnone | hrefused
    · cases hzero
    · cases hnone
    · exact absurd hfrequency (hrefused frequency)
  · obtain ⟨unit, hunit, hvalue⟩ := view_unit
    obtain ⟨p, d, hpeak, hfull⟩ := exists_isPeak ⟨by decide, by decide⟩ hn shaped.amplitude_eq
    obtain rfl : p = 255 / 2 := hfull rfl
    obtain rfl : d = n := hpeak.nearest.eq_of_representable (representable_natCast (by omega))
    obtain ⟨a, ha, ha0, ha1⟩ := hpeak.between _ _ hleast hmost hle hle'
    rw [find?_flat shaped.find_eq shaped.signal_eq,
      value_unfaded (fadeLength_unfaded shaped.attackSamples_eq shaped.attack_eq)
        (fadeLength_unfaded shaped.decaySamples_eq shaped.decay_eq)]
    exact between_mul hunit ha hleast hmost (by rw [hvalue]; linarith) (by rw [hvalue]; linarith)

/-- A tone of full volume, with a signal of one and no fades, contributes the rounded share. -/
theorem toInt_tone (hn : 0 < n) (hlt : n < 256) (hpos : 0 < loudest n) {level : Float}
    (h : noteLevel flat unfaded (.whole 60) n (tone 255) 0 = .ok level) :
    (toSample level).toInt = loudest n := by
  obtain ⟨most, hmost⟩ := exists_ceiling hn
  obtain ⟨least, hleast, hrounds, hle⟩ := exists_floor hn hlt hpos
  have hsmall := loudest_le hn
  have hlevel := between_level_tone hn hlt hleast hmost.isBound hle (hmost.share_le n (.refl n)) h
  obtain ⟨hlow, hhigh⟩ :=
    toInt_toSample_bounds hrounds hmost.rounds (by omega) (by omega) hlevel
  exact le_antisymm hhigh hlow

theorem passes_tone (hn : 0 < n) (hlt : n < 256) :
    Passes ⟨.whole 60, 2, n, unfaded, flat⟩ "a" (tone 255) := by
  obtain ⟨frequency, hfrequency⟩ := frequency_tone
  have hvoice : voice flat (tone 255) = .ok (fun _ => .ok fun _ => 1.0, frequency) :=
    voice_eq_ok_iff.mpr ⟨rfl, hfrequency⟩
  have hlimit := @two_pow_le_floatLimit 8 (by decide)
  have hamplitude : ∃ peak, amplitude (tone 255) n = .ok peak :=
    (exists_amplitude_iff hn).mpr ⟨show 255 < 255 * floatLimit by omega, by omega⟩
  refine (@passes_iff_of_voice ⟨.whole 60, 2, n, unfaded, flat⟩ "a" (tone 255) 2 _ _
    (noteCount_tone 255) hvoice).mpr ?_
  exact (@exists_sound_iff ⟨.whole 60, 2, n, unfaded, flat⟩ _ _ _ _ 0 0 rfl rfl ⟨0, rfl⟩ ⟨0, rfl⟩
    ⟨_, rfl⟩ ⟨_, rfl⟩).mpr ⟨hamplitude, _, rfl⟩

theorem exists_part (hn : 0 < n) (hlt : n < 256) :
    ∃ part, (Part.addNotes ⟨.whole 60, 2, n, unfaded, flat⟩ "a" ⟨#[], []⟩
      [tone 255]).outcome = .ok part := by
  refine (exists_addNotes_iff rfl fun note hnote => ?_).mpr fun k note haudible => ?_
  · obtain rfl := List.mem_singleton.mp hnote
    exact ⟨2, noteCount_tone 255⟩
  · obtain ⟨-, place, distance, hin, -⟩ := haudible
    obtain rfl := List.mem_singleton.mp (List.mem_of_getElem? hin.note_eq)
    exact passes_tone hn hlt

/-- So many such tones at once. -/
theorem exists_mixAt_eq (hn : 0 < n) (hlt : n < 256) (hpos : 0 < loudest n) :
    ∃ piece : NominalPiece n, piece.registry = flat ∧ piece.settings = unfaded ∧
      piece.tempo = .whole 60 ∧ piece.size = 2 ∧
      piece.channels = List.replicate n ⟨"a", #[tone 255]⟩ ∧ piece.mixAt 0 = n * loudest n := by
  obtain ⟨part, hpart⟩ := exists_part hn hlt
  have hchannel : ∀ channel ∈ List.replicate n (⟨"a", #[tone 255]⟩ : Channel),
      channel = ⟨"a", #[tone 255]⟩ := fun channel h => (List.mem_replicate.mp h).2
  have hlength : (List.replicate n (⟨"a", #[tone 255]⟩ : Channel)).length = n :=
    List.length_replicate
  obtain ⟨rendering, hrendering⟩ := (@exists_ofChannels_iff flat unfaded (.whole 60)
    (List.replicate n ⟨"a", #[tone 255]⟩) _ 2 rfl).mpr
      ⟨by decide, fun channel h => by rw [hchannel channel h, hlength]; exact ⟨part, hpart⟩⟩
  obtain ⟨size, mixed, hsize, -, hmixed, -⟩ := inNormalForm_ofChannels hrendering
  obtain rfl : 2 = size := Int.ofNat.inj (Number.whole.inj hsize)
  let piece : NominalPiece n :=
    { registry := flat, settings := unfaded, tempo := .whole 60, size := 2
      channels := List.replicate n ⟨"a", #[tone 255]⟩, mixed, rendering
      length_eq := hlength
      isBounded := isBounded_flat
      isNominal := by
        intro channel h note hnote
        rw [hchannel channel h] at hnote
        obtain rfl : note = tone 255 := by simpa using hnote
        exact ⟨by decide, by decide⟩
      mixes := hmixed
      renders := hrendering }
  refine ⟨piece, rfl, rfl, rfl, rfl, rfl, ?_⟩
  obtain ⟨values, hvalues, hmix, -⟩ := piece.exists_heard (show 0 < piece.size from Nat.zero_lt_two)
  have hloud : ∀ channel ∈ piece.channels, ∀ value, Heard flat unfaded (.whole 60)
      piece.channels.length channel.notes.toList 0 value → value.toInt = loudest n := by
    intro channel h value hheard
    rw [hchannel channel h, piece.length_eq] at hheard
    obtain ⟨level, hlevel, rfl⟩ := hheard.exists_contributes rfl
    exact toInt_tone hn hlt hpos (hlevel.inside _ _ _ (inWindow_tone 255))
  have hsum := sum_eq_of_forall₂ hvalues hloud
  have hmost : ((n * loudest n : Nat) : Int) ≤ 254 := by exact_mod_cast mul_loudest_le n
  push_cast at hmost
  rw [piece.length_eq] at hsum
  rw [hmix, toInt_sum, hsum, Int.bmod_eq_of_le]
  · exact le_trans (by decide) (by positivity : (0 : Int) ≤ n * loudest n)
  · exact lt_of_le_of_lt hmost (by decide)

/-- **Where nothing is ever cut.** The sum of the channels of a nominal piece is at most their number
times the rounded share; and it is in the range of a sample everywhere, for every nominal piece of so
many channels, exactly where that product is. -/
theorem mix_inside_iff (n : Nat) :
    (∀ piece : NominalPiece n, ∀ place < piece.size, |piece.mixAt place| ≤ n * loudest n) ∧
      n * loudest n ≤ 254 ∧
      ((∀ piece : NominalPiece n, piece.Unclipped) ↔ n * loudest n ≤ 127) := by
  refine ⟨fun piece place hplace => piece.abs_mixAt_le hplace, mul_loudest_le n, ?_, ?_⟩
  · intro hall
    by_contra hpast
    have hpos : 0 < loudest n := Nat.pos_of_ne_zero fun h => hpast (by simp [h])
    have hn : 0 < n := Nat.pos_of_ne_zero fun h => hpast (by simp [h])
    have hlt : n < 256 := by
      by_contra hge
      rw [loudest_of_ge (by omega)] at hpos
      omega
    obtain ⟨piece, -, -, -, hsize, -, hmix⟩ := exists_mixAt_eq hn hlt hpos
    obtain ⟨⟨-, hinside⟩, -⟩ := hall piece 0 (by omega)
    rw [hmix] at hinside
    exact hpast (by exact_mod_cast hinside)
  · intro hle piece
    refine piece.unclipped_of_inside fun place hplace => ?_
    have hmix := abs_le.mp (piece.abs_mixAt_le hplace)
    have hle : (n : Int) * loudest n ≤ 127 := by exact_mod_cast hle
    exact ⟨by linarith [hmix.1], by linarith [hmix.2]⟩

/-- Three tones of full volume contribute 42 each, and nothing is cut. -/
theorem mix_inside_three_tones :
    ∃ piece : NominalPiece 3, piece.channels = List.replicate 3 ⟨"a", #[tone 255]⟩ ∧
      0 < piece.size ∧ piece.mixAt 0 = 126 ∧ |piece.mixAt 0| ≤ 3 * loudest 3 ∧
      3 * loudest 3 ≤ 127 ∧ piece.Unclipped := by
  have hthree : 3 * loudest 3 = 126 := by decide
  obtain ⟨piece, -, -, -, hsize, hchannels, hmix⟩ := @exists_mixAt_eq 3 (by decide) (by decide)
    (by decide)
  obtain ⟨hbound, -, hinside⟩ := mix_inside_iff 3
  have hpos : 0 < piece.size := by omega
  exact ⟨piece, hchannels, hpos, hmix, hbound piece 0 hpos, by omega, hinside.mpr (by omega) piece⟩

/-- One tone alone contributes 128, and is cut to 127. -/
theorem mixAt_one_tone :
    ∃ piece : NominalPiece 1, piece.registry = flat ∧ piece.settings = unfaded ∧
      piece.tempo = .whole 60 ∧ piece.size = 2 ∧ piece.channels = [⟨"a", #[tone 255]⟩] ∧
      piece.mixAt 0 = 128 ∧ piece.rendering.samples[0]?.map Int8.toInt = some 127 ∧
      ¬ piece.Unclipped := by
  obtain ⟨piece, hregistry, hsettings, htempo, hsize, hchannels, hmix⟩ :=
    @exists_mixAt_eq 1 (by decide) (by decide) (by decide)
  have hmix : piece.mixAt 0 = 128 := hmix
  have hpos : 0 < piece.size := by omega
  have hsample := piece.sample_eq hpos
  rw [hmix] at hsample
  refine ⟨piece, hregistry, hsettings, htempo, hsize, hchannels, hmix, hsample, fun hinside => ?_⟩
  obtain ⟨⟨-, hle⟩, -⟩ := hinside 0 hpos
  omega

end Rendering
end Chiptune
