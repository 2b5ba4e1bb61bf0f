import Chiptune.Proofs.Binary64.RelativeError
import Chiptune.Proofs.Rendering.Compiled

/-!
# What a buffer holds

A buffer is laid out for the whole seconds of the longest channel, and for the padding. The notes are
played by the sample, each for its own time rounded to the nearest one, so a channel can take more
samples than its seconds say, and without padding its last note is then cut off
(`bufferLength_cut_off`).

It cannot take many more: half a sample for each note, and what the floats lose on the way
(`shortfall`). The run over the notes adds up both, the samples and the seconds, and the invariant of
`start_le_of_secondsFrom` keeps the one below the other. A padding that makes up for the shortfall
keeps every note whole (`start_le_bufferLength`).
-/

namespace Chiptune

open Binary64

/-! ## The longest channel -/

namespace Score

variable {lengths rest : List Float} {best : Float} {d : Binary64.Dyadic}

theorem exists_view_foldl (hd : view best = .finite d)
    (hrest : ∀ length ∈ rest, ∃ a, view length = .finite a) :
    ∃ c, view (rest.foldl (fun best length => if best < length then length else best) best) =
        .finite c ∧ d.value ≤ c.value ∧
      ∀ length ∈ rest, ∀ a, view length = .finite a → a.value ≤ c.value := by
  induction rest generalizing best d with
  | nil => exact ⟨d, hd, le_rfl, fun length hlength => absurd hlength List.not_mem_nil⟩
  | cons next rest ih =>
    obtain ⟨⟨a, ha⟩, hrest⟩ := List.forall_mem_cons.mp hrest
    rw [List.foldl_cons]
    -- The better one of the two is at least as long as both.
    obtain ⟨b, hb, hdb, hab⟩ : ∃ b, view (if best < next then next else best) = .finite b ∧
        d.value ≤ b.value ∧ a.value ≤ b.value := by
      split
      · rename_i hless
        exact ⟨a, ha, ((lt_iff_value_lt hd ha).mp hless).le, le_rfl⟩
      · rename_i hnot
        exact ⟨d, hd, le_rfl, not_lt.mp fun hlt => hnot ((lt_iff_value_lt hd ha).mpr hlt)⟩
    obtain ⟨c, hc, hbc, hall⟩ := ih hb hrest
    refine ⟨c, hc, hdb.trans hbc, List.forall_mem_cons.mpr ⟨fun a' ha' => ?_, hall⟩⟩
    cases ha.symm.trans ha'
    exact hab.trans hbc

/-- **No length is greater than the longest one.** -/
theorem value_le_longest (hviews : ∀ length ∈ lengths, ∃ a, view length = .finite a)
    (hd : view (longest lengths) = .finite d) {length : Float} (hlength : length ∈ lengths)
    {a : Binary64.Dyadic} (ha : view length = .finite a) : a.value ≤ d.value := by
  cases lengths with
  | nil => cases hlength
  | cons first rest =>
    obtain ⟨⟨b, hb⟩, hrest⟩ := List.forall_mem_cons.mp hviews
    obtain ⟨c, hc, hbc, hall⟩ := exists_view_foldl hb hrest
    cases hc.symm.trans hd
    rcases List.mem_cons.mp hlength with rfl | hmem
    · cases hb.symm.trans ha
      exact hbc
    · exact hall length hmem a ha

/-- The lengths that are computed are those of the channels. -/
theorem mem_of_mapM_eq_ok {tempo : Number} {channels : List Channel}
    (h : channels.mapM (·.seconds tempo) = .ok lengths) :
    (∀ channel ∈ channels, ∃ length, channel.seconds tempo = .ok length) ∧
      ∀ length, length ∈ lengths ↔ ∃ channel ∈ channels, channel.seconds tempo = .ok length := by
  induction channels generalizing lengths with
  | nil =>
    cases h
    simp
  | cons channel channels ih =>
    rw [List.mapM_cons] at h
    obtain ⟨first, hfirst, h⟩ := bind_eq_ok_iff.mp h
    obtain ⟨later, hlater, h⟩ := bind_eq_ok_iff.mp h
    cases h
    obtain ⟨hchannels, hlengths⟩ := ih hlater
    refine ⟨List.forall_mem_cons.mpr ⟨⟨first, hfirst⟩, hchannels⟩, fun length => ?_⟩
    simp [hlengths, hfirst, eq_comm]

/-- **No channel is longer than the score.** -/
theorem exists_value_le_seconds {score : Score} {beats : Int} (hbeats : 1 ≤ beats)
    (htempo : score.tempo.beats = .whole beats) {seconds : Float}
    (hseconds : score.seconds = .ok seconds) (hd : view seconds = .finite d) {channel : Channel}
    (hchannel : channel ∈ score.channels) :
    ∃ length a, channel.seconds (.whole beats) = .ok length ∧ view length = .finite a ∧
      a.value ≤ d.value := by
  unfold Score.seconds at hseconds
  rw [htempo] at hseconds
  obtain ⟨lengths, hlengths, hlongest⟩ := bind_eq_ok_iff.mp hseconds
  cases hlongest
  obtain ⟨hchannels, hmem⟩ := mem_of_mapM_eq_ok hlengths
  have hviews : ∀ length ∈ lengths, ∃ a, view length = .finite a := by
    intro length hlength
    obtain ⟨channel, -, hchannel⟩ := (hmem length).mp hlength
    obtain ⟨a, ha, -⟩ := Channel.exists_view_seconds hbeats hchannel
    exact ⟨a, ha⟩
  obtain ⟨length, hlength⟩ := hchannels channel hchannel
  have hlisted := (hmem length).mpr ⟨channel, hchannel, hlength⟩
  obtain ⟨a, ha⟩ := hviews length hlisted
  exact ⟨length, a, hlength, ha, value_le_longest hviews hd hlisted ha⟩

end Score

namespace Rendering

/-! ## Samples and seconds -/

/-- How many samples a second has, with what two roundings can add to a product. -/
def samplesPerSecond (rate : Int) : ℚ := (1 + roundoff) ^ 2 * rate

theorem samplesPerSecond_nonneg {rate : Int} (hpositive : 1 ≤ rate) :
    0 ≤ samplesPerSecond rate := by
  have hrate : (0 : ℚ) ≤ rate := by exact_mod_cast (show 0 ≤ rate by omega)
  unfold samplesPerSecond
  positivity

variable {beats rate : Int} {sampleRate : Number} {note : Note} {notes : List Note}

/-- **What a note takes**: half a sample more than its time, at most. -/
theorem count_le {length : Float} {l : Binary64.Dyadic} {count : Int} (hpositive : 1 ≤ rate)
    (hrate : sampleRate.measure = .exact rate)
    (hlength : note.seconds (.whole beats) = .ok length) (hl : view length = .finite l)
    (hl0 : 0 ≤ l.value) (hcount : noteCount (.whole beats) sampleRate note = .ok count) :
    (count : ℚ) ≤ samplesPerSecond rate * l.value + 1 / 2 := by
  obtain ⟨length', hlength', hcount⟩ := bind_eq_ok_iff.mp hcount
  cases hlength.symm.trans hlength'
  obtain ⟨product, hproduct, hcount⟩ := bind_eq_ok_iff.mp hcount
  rw [real_mul] at hproduct
  obtain ⟨x, hx, hproduct⟩ := bind_eq_ok_iff.mp hproduct
  cases hproduct
  have hx' : ofInt rate = .ok x := by
    unfold Number.toFloat at hx
    rwa [hrate] at hx
  obtain ⟨r, hr, -⟩ := exists_view_ofInt hx'
  have hrle := value_ofInt_le hpositive hx' hr
  obtain ⟨c, hc, rfl⟩ := exists_view_of_toInt hcount
  obtain ⟨hround, -, -⟩ := c.round_spec
  rcases (nearest_mul hl hr hc).le_or_tiny with hle | htiny
  · have hproduct : (1 + roundoff) * (l.value * r.value) ≤ samplesPerSecond rate * l.value :=
      calc (1 + roundoff) * (l.value * r.value)
          ≤ (1 + roundoff) * (l.value * ((1 + roundoff) * rate)) := by
            have := roundoff_pos
            gcongr
        _ = samplesPerSecond rate * l.value := by
            unfold samplesPerSecond
            ring
    linarith
  · have hzero : c.round ≤ 0 := by
      have hless : (c.round : ℚ) < (1 : Int) := by
        push_cast
        linarith [two_zpow_least_lt_half]
      have := Int.cast_lt.mp hless
      omega
    have hzero' : (c.round : ℚ) ≤ 0 := by exact_mod_cast hzero
    linarith [mul_nonneg (samplesPerSecond_nonneg hpositive) hl0]

/-- **At no more than so many samples in a second, every note takes a number of them.** -/
theorem exists_count (hbeats : 1 ≤ beats) (hpositive : 1 ≤ rate) (hmost : rate < 2 ^ 1000)
    (hrate : sampleRate.measure = .exact rate)
    (h : ∃ length, note.seconds (.whole beats) = .ok length) :
    ∃ count, noteCount (.whole beats) sampleRate note = .ok count := by
  obtain ⟨length, hlength⟩ := h
  obtain ⟨l, hl, hl0, hlle⟩ := note.exists_view_seconds hbeats hlength
  have hnonneg : 0 ≤ rate := zero_le_one.trans hpositive
  have hrate0 : (0 : ℚ) ≤ rate := by exact_mod_cast hnonneg
  have hmost' : (rate : ℚ) ≤ 2 ^ 1000 :=
    calc (rate : ℚ) ≤ ((2 ^ 1000 : Int) : ℚ) := Int.cast_le.mpr hmost.le
      _ = 2 ^ 1000 := by rw [Int.cast_pow, Int.cast_ofNat]
  have hnat : rate.natAbs < 2 ^ 1000 := by
    rw [← Int.natAbs_of_nonneg hnonneg] at hmost
    exact_mod_cast hmost
  obtain ⟨x, hx⟩ := exists_ofInt_iff.mpr (hnat.trans_le (two_pow_le_floatLimit (by decide)))
  obtain ⟨r, hr, -⟩ := exists_view_ofInt hx
  have hr1 := one_le_value_ofInt hpositive hx hr
  have hrle : r.value ≤ 2 * rate :=
    (value_ofInt_le hpositive hx hr).trans
      (mul_le_mul_of_nonneg_right (by norm_num [roundoff]) hrate0)
  have hproduct : |l.value * r.value| ≤ 2 ^ 1023 := by
    rw [abs_of_nonneg (mul_nonneg hl0 (by linarith))]
    calc l.value * r.value
        ≤ 240 * (2 * rate) := mul_le_mul hlle hrle (by linarith) (by norm_num)
      _ = 480 * rate := by ring
      _ ≤ 2 ^ 23 * 2 ^ 1000 := mul_le_mul (by norm_num) hmost' hrate0 (by positivity)
      _ = 2 ^ 1023 := (pow_add 2 23 1000).symm
  obtain ⟨c, hc, -⟩ := exists_view_mul hl hr hproduct
  have hfloat : sampleRate.toFloat = .ok x := by
    unfold Number.toFloat
    rw [hrate]
    exact hx
  refine ⟨c.round, ?_⟩
  unfold noteCount noteSamples
  rw [hlength]
  simp only [bind, Except.bind]
  rw [real_mul, hfloat]
  exact toInt_of_view hc

theorem exists_start {tempo : Number}
    (h : ∀ note ∈ notes, ∃ count, noteCount tempo sampleRate note = .ok count) :
    ∃ total, start tempo sampleRate notes = .ok total := by
  induction notes with
  | nil => exact ⟨0, rfl⟩
  | cons note rest ih =>
    obtain ⟨⟨count, hcount⟩, hrest⟩ := List.forall_mem_cons.mp h
    obtain ⟨later, hlater⟩ := ih hrest
    exact ⟨count + later, start_cons.mpr ⟨count, later, hcount, hlater, rfl⟩⟩

/-- **The run over the notes.** The samples that are taken stay below the seconds that are added up,
but for half a sample for each note and what each sum loses. -/
theorem start_le_of_secondsFrom {total seconds : Float} {d s : Binary64.Dyadic} {count : Int}
    (hbeats : 1 ≤ beats) (hpositive : 1 ≤ rate) (hrate : sampleRate.measure = .exact rate)
    (hd : view total = .finite d) (hd0 : 0 ≤ d.value) (hdle : d.value ≤ 2 ^ 70)
    (hseconds : Channel.secondsFrom (.whole beats) total notes = .ok seconds)
    (hs : view seconds = .finite s) (hcount : start (.whole beats) sampleRate notes = .ok count) :
    d.value ≤ s.value ∧
      (count : ℚ) ≤ samplesPerSecond rate * (s.value * (1 + notes.length * roundoff) - d.value) +
        notes.length / 2 := by
  induction notes generalizing total d count with
  | nil =>
    cases hseconds
    cases hd.symm.trans hs
    cases hcount
    simp
  | cons note rest ih =>
    obtain ⟨length, hlength, hseconds⟩ := bind_eq_ok_iff.mp hseconds
    obtain ⟨first, later, hfirst, hlater, rfl⟩ := start_cons.mp hcount
    obtain ⟨l, hl, hl0, hlle⟩ := note.exists_view_seconds hbeats hlength
    obtain ⟨c, hc, hc0, hcle⟩ := @value_add_le_two_pow _ _ _ _ 70 (by decide) hd hl hd0 hl0 hdle
      (by norm_num; linarith)
    have hnearest := nearest_add hd hl hc
    have hdc : d.value ≤ c.value :=
      (hnearest.adjoins _ (representable_value hd)).1 (by linarith)
    obtain ⟨hcs, hrest⟩ := ih hc hc0 hcle hseconds hlater
    have hsum := hnearest.add_error_le (representable_value hd) (representable_value hl) hd0 hl0
    have htaken := count_le hpositive hrate hlength hl hl0 hfirst
    have hscale := samplesPerSecond_nonneg hpositive
    have hlost : l.value ≤ c.value - d.value + roundoff * s.value := by
      have := mul_le_mul_of_nonneg_left hcs roundoff_pos.le
      linarith
    refine ⟨hdc.trans hcs, ?_⟩
    rw [List.length_cons]
    push_cast
    calc (first + later : ℚ)
        ≤ samplesPerSecond rate * l.value + 1 / 2 + (samplesPerSecond rate *
            (s.value * (1 + rest.length * roundoff) - c.value) + rest.length / 2) := by linarith
      _ ≤ samplesPerSecond rate * (c.value - d.value + roundoff * s.value) + 1 / 2 +
            (samplesPerSecond rate * (s.value * (1 + rest.length * roundoff) - c.value) +
              rest.length / 2) := by gcongr
      _ = samplesPerSecond rate * (s.value * (1 + (rest.length + 1) * roundoff) - d.value) +
            (rest.length + 1) / 2 := by ring

/-! ## Buffers -/

/-- How many samples so many notes can take more than the whole seconds that they are played in have:
half a sample each, and what the floats lose. -/
def shortfall (notes : Nat) (played : Int) : ℚ := notes / 2 + (notes + 1) * played / 2 ^ 52

/-- The losses of the roundings, put together. -/
theorem losses_le {n : Nat} (hn : n ≠ 0) :
    (1 + roundoff) ^ 2 * (1 + n * roundoff) ≤ 1 + (n + 1) / 2 ^ 52 := by
  have h1 : (1 : ℚ) ≤ n := by exact_mod_cast Nat.one_le_iff_ne_zero.mpr hn
  unfold roundoff
  nlinarith

/-- What a channel takes, next to the whole seconds of the score. -/
theorem start_le_played {score : Score} {seconds : Float} {d : Binary64.Dyadic} {channel : Channel}
    {total : Int} (hbeats : 1 ≤ beats) (htempo : score.tempo.beats = .whole beats)
    (hpositive : 1 ≤ rate) (hrate : sampleRate.measure = .exact rate)
    (hseconds : score.seconds = .ok seconds) (hd : view seconds = .finite d)
    (hchannel : channel ∈ score.channels)
    (htotal : start (.whole beats) sampleRate channel.notes.toList = .ok total) :
    (total : ℚ) ≤ (rate * d.ceil : Int) + shortfall channel.notes.size (rate * d.ceil) := by
  obtain ⟨length, a, hlength, ha, had⟩ :=
    Score.exists_value_le_seconds hbeats htempo hseconds hd hchannel
  obtain ⟨ha0, hrun⟩ := start_le_of_secondsFrom hbeats hpositive hrate view_zero
    (by simp [Dyadic.value]) (by simp [Dyadic.value]) hlength ha htotal
  rw [Array.length_toList] at hrun
  have hvalue : Dyadic.value ⟨0, -1074⟩ = 0 := by simp [Dyadic.value]
  rw [hvalue] at ha0 hrun
  have hceil : a.value ≤ d.ceil := had.trans d.le_ceil
  have hceil0 : (0 : ℚ) ≤ d.ceil := ha0.trans hceil
  have hrate0 : (0 : ℚ) ≤ rate := by exact_mod_cast (show 0 ≤ rate by omega)
  have hloss := roundoff_pos
  unfold shortfall
  push_cast
  by_cases hn : channel.notes.size = 0
  · rw [Array.eq_empty_of_size_eq_zero hn] at htotal
    cases htotal
    push_cast
    positivity
  · calc (total : ℚ)
        ≤ samplesPerSecond rate * (d.ceil * (1 + channel.notes.size * roundoff)) +
            channel.notes.size / 2 := by
          rw [sub_zero] at hrun
          have := samplesPerSecond_nonneg hpositive
          refine hrun.trans ?_
          gcongr
      _ = rate * d.ceil * ((1 + roundoff) ^ 2 * (1 + channel.notes.size * roundoff)) +
            channel.notes.size / 2 := by
          unfold samplesPerSecond
          ring
      _ ≤ rate * d.ceil * (1 + (channel.notes.size + 1) / 2 ^ 52) + channel.notes.size / 2 := by
          have := losses_le hn
          gcongr
      _ = rate * d.ceil +
            (channel.notes.size / 2 + (channel.notes.size + 1) * (rate * d.ceil) / 2 ^ 52) := by
          ring

/-- A window ends before what all notes take. -/
theorem InWindow.lt_start {tempo : Number} {k place distance : Nat} {total : Int}
    (htempo : tempo.isNotPositive = false) (hpositive : sampleRate.isNotPositive = false)
    (h : InWindow tempo sampleRate notes k note place distance)
    (htotal : start tempo sampleRate notes = .ok total) : (place : Int) < total := by
  obtain ⟨hnote, ⟨first, hfirst, hplace⟩, count, hcount, hlt⟩ := h
  obtain ⟨hk, hget⟩ := List.getElem?_eq_some_iff.mp hnote
  have hsplit : notes.take k ++ note :: notes.drop (k + 1) = notes := by
    rw [← hget, ← List.drop_eq_getElem_cons hk, List.take_append_drop]
  rw [← hsplit, start_append] at htotal
  obtain ⟨first', rest, hfirst', hrest, rfl⟩ := htotal
  cases hfirst.symm.trans hfirst'
  obtain ⟨count', later, hcount', hlater, rfl⟩ := start_cons.mp hrest
  cases hcount.symm.trans hcount'
  have := start_nonneg htempo hpositive hlater
  omega

theorem bufferLength_eq_ok {score : Score} {length : Number}
    (hrate : score.settings.sampleRate.measure = .exact rate)
    (h : score.bufferLength = .ok length) :
    ∃ seconds d padding, score.seconds = .ok seconds ∧ view seconds = .finite d ∧
      score.settings.paddingSamples = .ok padding ∧
      length = .whole (rate * d.ceil + padding) := by
  obtain ⟨seconds, hseconds, h⟩ := bind_eq_ok_iff.mp h
  obtain ⟨whole, hwhole, h⟩ := bind_eq_ok_iff.mp h
  obtain ⟨playing, hplaying, h⟩ := bind_eq_ok_iff.mp h
  obtain ⟨padding, hpadding, h⟩ := bind_eq_ok_iff.mp h
  obtain ⟨d, hd, rfl⟩ := exists_view_of_toInt hwhole
  refine ⟨seconds, d, padding, hseconds, hd, hpadding, ?_⟩
  unfold Number.mul at hplaying
  rw [hrate] at hplaying
  cases hplaying
  cases h
  rfl

theorem bufferLength_eq_whole {score : Score} {size : Int}
    (hrate : score.settings.sampleRate.measure = .exact rate)
    (h : score.bufferLength >>= Number.truncate = .ok size) :
    score.bufferLength = .ok (.whole size) := by
  obtain ⟨length, hlength, hsize⟩ := bind_eq_ok_iff.mp h
  obtain ⟨_, _, _, _, _, _, rfl⟩ := bufferLength_eq_ok hrate hlength
  cases hsize
  exact hlength

open Source

/-- **A buffer holds what its padding makes up for.** The notes of a channel take no more samples than
the buffer has in front of its padding, but for a shortfall of half a sample for each note, and of what
the floats lose. Where the padding is as long as the shortfall, the buffer holds all notes, and every
place of every note is one of the rendering. -/
theorem start_le_bufferLength [Room] {settings : Settings} {text : List Char} {score : Score}
    {length : Number} (hcompile : (compile settings text).outcome = .ok score)
    (hrate : settings.sampleRate.measure = .exact rate)
    (hlength : score.bufferLength = .ok length) :
    ∃ size padding : Int, length = .whole size ∧ settings.paddingSamples = .ok padding ∧
      (∀ registry rendering, (score.render registry).outcome = .ok rendering →
        (rendering.samples.size : Int) = size) ∧
      ∀ channel ∈ score.channels,
        (rate < 2 ^ 1000 → ∃ total,
          start score.tempo.beats settings.sampleRate channel.notes.toList = .ok total) ∧
        ∀ total, start score.tempo.beats settings.sampleRate channel.notes.toList = .ok total →
          (total : ℚ) ≤ (size - padding : Int) + shortfall channel.notes.size (size - padding) ∧
          (shortfall channel.notes.size (size - padding) ≤ padding →
            total ≤ size ∧ ∀ k note place distance,
              InWindow score.tempo.beats settings.sampleRate channel.notes.toList k note place
                distance → (place : Int) < size) := by
  have htimed := timed_of_compile hcompile
  obtain ⟨beats, hbeats, htempo⟩ := htimed.tempo
  have hsettings := htimed.settings_eq
  rw [← hsettings] at hrate
  obtain ⟨seconds, d, padding, hseconds, hd, hpadding, rfl⟩ := bufferLength_eq_ok hrate hlength
  rw [hsettings] at hrate hpadding
  have hpositive : 1 ≤ rate := by
    have hrate0 := settings.rate_positive
    unfold Number.isNotPositive Number.isNegative Number.isZero at hrate0
    rw [hrate] at hrate0
    simp at hrate0
    omega
  refine ⟨_, padding, rfl, hpadding, fun registry rendering hrendering => ?_,
    fun channel hchannel => ⟨fun hmost => ?_, fun total htotal => ?_⟩⟩
  · unfold Score.render at hrendering
    rw [Report.outcome_bind, Report.outcome_liftM, hlength] at hrendering
    obtain ⟨-, size, rendered, hsize, -, rfl⟩ := ofChannels_eq_ok hrendering
    rw [Number.whole.inj hsize]
    simp [mix]
  · have htimes := Channel.exists_seconds_iff.mp (htimed.seconds channel hchannel)
    rw [htempo] at htimes ⊢
    exact exists_start fun note hnote =>
      exists_count hbeats hpositive hmost hrate (htimes note (Array.mem_toList_iff.mp hnote))
  · have hplayed : rate * d.ceil + padding - padding = rate * d.ceil := by omega
    rw [hplayed]
    rw [htempo] at htotal ⊢
    have hle := start_le_played hbeats htempo hpositive hrate hseconds hd hchannel htotal
    refine ⟨hle, fun hpadded => ?_⟩
    have htotal_le : total ≤ rate * d.ceil + padding := by
      have : (total : ℚ) ≤ (rate * d.ceil + padding : Int) := by
        push_cast at hle ⊢
        linarith
      exact_mod_cast this
    exact ⟨htotal_le, fun k note place distance hin => lt_of_lt_of_le
      (hin.lt_start (htempo ▸ score.tempo.positive) settings.rate_positive htotal) htotal_le⟩

/-- A note of a third of a second, at a beat in a second. -/
def third : Note := { middle with timbre := "sin", duration := 12, duration_pos := by decide }

theorem compile_thirds (settings : Settings) :
    (compile settings "T60:a\nL12CCC".toList).outcome =
      .ok ⟨⟨.whole 60, rfl⟩, [⟨"a", #[third, third, third]⟩], settings⟩ := by
  have hstart := @start_of_tempo settings (stripComments "T60:a\nL12CCC".toList) "60" 60
    (by decide +kernel) (by decide +kernel) rfl
  have hchannels : (sections (stripComments "T60:a\nL12CCC".toList)).map
      (fun s => (played s).builder.channel) = [⟨"a", #[third, third, third]⟩] := by decide +kernel
  rw [compile_of_played hstart (show ∀ s ∈ sections (stripComments "T60:a\nL12CCC".toList),
    (played s).failure?.isNone = true ∧
      ((played s).builder.channel.seconds (.whole 60)).toOption.isSome = true by decide +kernel),
    hchannels]
  rfl

/-- Three notes of a third of a second take 8001 samples. With a second of padding there is room for
them. -/
theorem start_le_bufferLength_padded :
    let settings : Settings := ⟨.whole 8000, .whole 0, .whole 0, .whole 1, rfl, rfl, rfl, rfl⟩
    settings.sampleRate.measure = .exact 8000 ∧
    ∃ score, (compile settings "T60:a\nL12CCC".toList).outcome = .ok score ∧
      score.bufferLength = .ok (.whole 16000) ∧ ∃ channel ∈ score.channels,
        start score.tempo.beats settings.sampleRate channel.notes.toList = .ok 8001 ∧
          shortfall channel.notes.size 8000 ≤ 8000 ∧ (8001 : Int) ≤ 16000 := by
  intro settings
  have hcompile := compile_thirds settings
  have hlength := @bufferLength_eq_whole 8000
    ⟨⟨.whole 60, rfl⟩, [⟨"a", #[third, third, third]⟩], settings⟩ 16000 rfl rfl
  obtain ⟨size, padding, hsize, hpadding, -, hchannels⟩ :=
    start_le_bufferLength hcompile rfl hlength
  cases hsize
  obtain rfl : padding = 8000 := Except.ok.inj (hpadding.symm.trans rfl)
  have htotal : start (.whole 60) settings.sampleRate [third, third, third] = .ok 8001 := rfl
  have hpadded : shortfall 3 8000 ≤ 8000 := by norm_num [shortfall]
  obtain ⟨-, htotals⟩ := hchannels _ (List.mem_singleton_self _)
  obtain ⟨-, hroom⟩ := htotals 8001 htotal
  exact ⟨rfl, _, hcompile, hlength, _, List.mem_singleton_self _, htotal, hpadded,
    (hroom hpadded).1⟩

/-- Without padding, the last sample of the last note has no place. -/
theorem bufferLength_cut_off :
    let settings : Settings := ⟨.whole 8000, .whole 0, .whole 0, .whole 0, rfl, rfl, rfl, rfl⟩
    ∃ score, (compile settings "T60:a\nL12CCC".toList).outcome = .ok score ∧
      score.bufferLength = .ok (.whole 8000) ∧ ∃ channel ∈ score.channels,
        start score.tempo.beats settings.sampleRate channel.notes.toList = .ok 8001 := by
  intro settings
  have hlength := @bufferLength_eq_whole 8000
    ⟨⟨.whole 60, rfl⟩, [⟨"a", #[third, third, third]⟩], settings⟩ 8000 rfl rfl
  have htotal : start (.whole 60) settings.sampleRate [third, third, third] = .ok 8001 := rfl
  exact ⟨_, compile_thirds settings, hlength, _, List.mem_singleton_self _, htotal⟩

end Rendering
end Chiptune
