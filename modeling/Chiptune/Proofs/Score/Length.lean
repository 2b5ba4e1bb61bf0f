import Chiptune.Proofs.Binary64.Amount
import Chiptune.Proofs.Binary64.Between
import Chiptune.Proofs.Rendering.Capacity

/-!
# The length of a buffer

Settings and tempos are checked for their signs, and for nothing else. What passes can be an infinity
or a not-a-number, and a sample rate can be a fraction. A buffer has a length that is a whole number
exactly where the rate is one, the playing time is a number, and so is what the padding comes to
(`Laid`, `bufferLength_eq_whole_iff`); the length is then not negative.

The playing time is that of the longest channel, and the longest is looked for by comparisons. At a
tempo that is no not-a-number all lengths are amounts, so a channel of infinite length is found
(`exists_view_of_longest`), and no channel is longer than the playing time. A not-a-number compares
with nothing, and is passed over unless it comes first.
-/

namespace Chiptune

open Binary64

/-- Whether a number is a float that is not a number. -/
def Number.isNaN (n : Number) : Bool :=
  match n.measure with
  | .exact _ => false
  | .approximate x => Binary64.isNaN x

theorem Number.toFloat_of_exact {n : Number} {k : Int} (h : n.measure = .exact k) :
    n.toFloat = ofInt k := by
  unfold toFloat
  rw [h]

variable {tempo : Number}

/-! ## Playing times -/

theorem Number.isAmount_toFloat {n : Number} {x : Float} (hn : n.isNotPositive = false)
    (hnan : n.isNaN = false) (h : n.toFloat = .ok x) : IsAmount x := by
  refine isAmount_of_isNegative (Rendering.isNegative_toFloat hn h) fun hview => ?_
  cases hmeasure : n.measure with
  | exact k =>
    rw [toFloat_of_exact hmeasure] at h
    obtain ⟨d, hd, -⟩ := exists_view_ofInt h
    cases hd.symm.trans hview
  | approximate y =>
    unfold toFloat at h
    unfold isNaN at hnan
    rw [hmeasure] at h hnan
    cases h
    simp only [Binary64.isNaN, hview] at hnan
    cases hnan

/-- Over a duration that is a float there are some seconds in a note, at any tempo. -/
theorem Note.isAmount_seconds {note : Note} {length : Float} (hduration : note.duration ≤ 1024)
    (htempo : tempo.isNotPositive = false) (hnan : tempo.isNaN = false)
    (h : note.seconds tempo = .ok length) : IsAmount length := by
  obtain ⟨duration, pulse, hfloat, -, hpulse, hpulse0, rfl⟩ := seconds_eq_ok_iff.mp h
  obtain ⟨d, hd, hnearest⟩ := exists_view_ofInt hfloat
  have hvalue : d.value = note.duration := by
    have hexact := hnearest.eq_of_representable (by
      exact_mod_cast representable_natCast (show note.duration < 2 ^ 53 by omega))
    exact_mod_cast hexact
  have hone : (1 : ℚ) ≤ d.value := by
    rw [hvalue]
    exact_mod_cast note.duration_pos
  have hmost : d.value ≤ 1024 := by
    rw [hvalue]
    exact_mod_cast hduration
  have hpos : (0 : ℚ) < d.value := by linarith
  obtain ⟨four, hfour, hfour'⟩ := view_four
  obtain ⟨sixty, hsixty, hsixty'⟩ := view_sixty
  obtain ⟨a, ha, ha0, -⟩ := between_div hfour hd hpos.ne'
    (@isBound_div_two_pow 1 8 (by decide) (by decide))
    (@isBound_div_two_pow 4 0 (by decide) (by decide))
    (by rw [hfour', le_div_iff₀ hpos]; push_cast; linarith)
    (by rw [hfour', div_le_iff₀ hpos]; push_cast; linarith)
  refine isAmount_mul ha (lt_of_lt_of_le (by positivity) ha0) ?_
  exact isAmount_div hsixty (by rw [hsixty']; norm_num)
    (Number.isAmount_toFloat htempo hnan hpulse) hpulse0

namespace Channel

theorem isAmount_secondsFrom {total seconds : Float} {notes : List Note}
    (htempo : tempo.isNotPositive = false) (hnan : tempo.isNaN = false)
    (hnotes : ∀ note ∈ notes, note.duration ≤ 1024) (htotal : IsAmount total)
    (h : secondsFrom tempo total notes = .ok seconds) : IsAmount seconds := by
  induction notes generalizing total with
  | nil =>
    cases h
    exact htotal
  | cons note rest ih =>
    obtain ⟨hnote, hrest⟩ := List.forall_mem_cons.mp hnotes
    obtain ⟨length, hlength, h⟩ := bind_eq_ok_iff.mp h
    exact ih hrest (htotal.add (note.isAmount_seconds hnote htempo hnan hlength)) h

/-- **No note is longer than what it is added up to**, and a sum that is a number has numbers only. -/
theorem exists_view_of_secondsFrom {total seconds : Float} {notes : List Note} {d : Binary64.Dyadic}
    (htempo : tempo.isNotPositive = false) (h : secondsFrom tempo total notes = .ok seconds)
    (hd : view seconds = .finite d) :
    ∃ a, view total = .finite a ∧ a.value ≤ d.value ∧
      (0 ≤ a.value → ∀ note ∈ notes, ∃ length b, note.seconds tempo = .ok length ∧
        view length = .finite b ∧ 0 ≤ b.value ∧ b.value ≤ d.value) := by
  induction notes generalizing total with
  | nil =>
    cases h
    exact ⟨d, hd, le_rfl, fun _ note hnote => absurd hnote List.not_mem_nil⟩
  | cons note rest ih =>
    obtain ⟨length, hlength, h⟩ := bind_eq_ok_iff.mp h
    obtain ⟨c, hc, hcd, hlater⟩ := ih h
    obtain ⟨a, b, ha, hb, -, hadjoins⟩ := adjoins_add hc
    have hsign := Rendering.isNegative_seconds htempo hlength
    have hb0 := Dyadic.value_nonneg (view_mantissa_nonneg hsign hb)
    have hac := value_le_value_add ha hc hsign
    refine ⟨a, ha, hac.trans hcd, fun ha0 => List.forall_mem_cons.mpr ⟨?_, hlater (ha0.trans hac)⟩⟩
    have hbc : b.value ≤ c.value := (hadjoins _ (representable_value hb)).1 (by linarith)
    exact ⟨length, b, hlength, hb, hb0, hbc.trans hcd⟩

end Channel

namespace Score

theorem exists_view_of_foldl {best : Float} {rest : List Float} {d : Binary64.Dyadic}
    (hbest : IsAmount best) (hrest : ∀ length ∈ rest, IsAmount length)
    (hd : view (rest.foldl (fun best length => if best < length then length else best) best) =
      .finite d) :
    (∃ a, view best = .finite a) ∧ ∀ length ∈ rest, ∃ a, view length = .finite a := by
  induction rest generalizing best with
  | nil => exact ⟨⟨d, hd⟩, fun length hlength => absurd hlength List.not_mem_nil⟩
  | cons next rest ih =>
    obtain ⟨hnext, hrest⟩ := List.forall_mem_cons.mp hrest
    rw [List.foldl_cons] at hd
    -- An infinity would be chosen, on whichever side it stands.
    rcases hbest with hinfinite | ⟨a, ha, ha0⟩
    · rw [if_neg (not_lt_of_infinite hinfinite)] at hd
      obtain ⟨⟨a, ha⟩, -⟩ := ih (.inl hinfinite) hrest hd
      cases hinfinite.symm.trans ha
    · rcases hnext with hinfinite | ⟨b, hb, hb0⟩
      · rw [if_pos (lt_of_infinite ha hinfinite)] at hd
        obtain ⟨⟨b, hb⟩, -⟩ := ih (.inl hinfinite) hrest hd
        cases hinfinite.symm.trans hb
      · have hchosen : IsAmount (if best < next then next else best) := by
          split
          · exact .inr ⟨b, hb, hb0⟩
          · exact .inr ⟨a, ha, ha0⟩
        exact ⟨⟨a, ha⟩, List.forall_mem_cons.mpr ⟨⟨b, hb⟩, (ih hchosen hrest hd).2⟩⟩

/-- **Among amounts, the longest is a number only if all are.** -/
theorem exists_view_of_longest {lengths : List Float} {d : Binary64.Dyadic}
    (hlengths : ∀ length ∈ lengths, IsAmount length) (hd : view (longest lengths) = .finite d) :
    ∀ length ∈ lengths, ∃ a, view length = .finite a := by
  cases lengths with
  | nil => exact fun length hlength => absurd hlength List.not_mem_nil
  | cons first rest =>
    obtain ⟨hfirst, hrest⟩ := List.forall_mem_cons.mp hlengths
    exact List.forall_mem_cons.mpr (exists_view_of_foldl hfirst hrest hd)

variable {score : Score} {seconds : Float} {playing : Binary64.Dyadic}

theorem seconds_eq_ok_iff :
    score.seconds = .ok seconds ↔ ∃ lengths,
      score.channels.mapM (·.seconds score.tempo.beats) = .ok lengths ∧
        longest lengths = seconds := by
  unfold Score.seconds
  constructor
  · intro h
    obtain ⟨lengths, hlengths, h⟩ := bind_eq_ok_iff.mp h
    exact ⟨lengths, hlengths, Except.ok.inj h⟩
  · rintro ⟨lengths, hlengths, rfl⟩
    exact bind_eq_ok_iff.mpr ⟨lengths, hlengths, rfl⟩

/-- A playing time is not negative. -/
theorem value_seconds_nonneg (h : score.seconds = .ok seconds)
    (hd : view seconds = .finite playing) : 0 ≤ playing.value := by
  obtain ⟨lengths, hlengths, rfl⟩ := seconds_eq_ok_iff.mp h
  by_cases hempty : lengths = []
  · rw [hempty] at hd
    cases view_zero.symm.trans hd
    simp [Dyadic.value]
  · obtain ⟨-, hmem⟩ := mem_of_mapM_eq_ok hlengths
    obtain ⟨channel, -, hchannel⟩ := (hmem _).mp (longest_mem hempty)
    obtain ⟨a, ha, hle, -⟩ :=
      Channel.exists_view_of_secondsFrom score.tempo.positive hchannel hd
    cases view_zero.symm.trans ha
    simpa [Dyadic.value] using hle

/-- **No note is longer than the score**, at a tempo that is no not-a-number. -/
theorem exists_view_note (h : score.seconds = .ok seconds) (hd : view seconds = .finite playing)
    (hnan : score.tempo.beats.isNaN = false)
    (hdurations : ∀ channel ∈ score.channels, ∀ note ∈ channel.notes, note.duration ≤ 1024)
    {channel : Channel} (hchannel : channel ∈ score.channels) {note : Note}
    (hnote : note ∈ channel.notes) :
    ∃ length b, note.seconds score.tempo.beats = .ok length ∧ view length = .finite b ∧
      0 ≤ b.value ∧ b.value ≤ playing.value := by
  obtain ⟨lengths, hlengths, rfl⟩ := seconds_eq_ok_iff.mp h
  obtain ⟨hchannels, hmem⟩ := mem_of_mapM_eq_ok hlengths
  have hamounts : ∀ length ∈ lengths, IsAmount length := by
    intro length hlength
    obtain ⟨channel, hchannel, hseconds⟩ := (hmem length).mp hlength
    exact Channel.isAmount_secondsFrom score.tempo.positive hnan
      (fun note hnote => hdurations channel hchannel note (Array.mem_toList_iff.mp hnote))
      isAmount_zero hseconds
  have hviews := exists_view_of_longest hamounts hd
  obtain ⟨total, htotal⟩ := hchannels channel hchannel
  have hlisted := (hmem total).mpr ⟨channel, hchannel, htotal⟩
  obtain ⟨c, hc⟩ := hviews total hlisted
  have hle := value_le_longest hviews hd hlisted hc
  obtain ⟨zero, hzero, -, hnotes⟩ :=
    Channel.exists_view_of_secondsFrom score.tempo.positive htotal hc
  cases view_zero.symm.trans hzero
  obtain ⟨length, b, hlength, hb, hb0, hbc⟩ := hnotes (by simp [Dyadic.value]) note
    (Array.mem_toList_iff.mpr hnote)
  exact ⟨length, b, hlength, hb, hb0, hbc.trans hle⟩

end Score

/-! ## Times in samples -/

theorem Binary64.Dyadic.truncate_nonneg {d : Binary64.Dyadic} (h : 0 ≤ d.value) :
    0 ≤ d.truncate := by
  have hfloor : 0 ≤ d.floor := by
    have hless : ((-1 : Int) : ℚ) < d.floor := by
      push_cast
      linarith [d.lt_floor_add_one]
    have := Int.cast_lt.mp hless
    omega
  have hmantissa : ¬ d.mantissa < 0 := by
    intro hneg
    have hneg' : (d.mantissa : ℚ) < 0 := by exact_mod_cast hneg
    exact absurd h (mul_neg_of_neg_of_pos hneg' (by positivity)).not_ge
  unfold truncate
  rwa [if_neg hmantissa]

namespace Settings

variable {settings : Settings} {rate n : Int} {time : Number}

theorem one_le_rate (h : settings.sampleRate.measure = .exact rate) : 1 ≤ rate := by
  have hrate := settings.rate_positive
  unfold Number.isNotPositive Number.isNegative Number.isZero at hrate
  rw [h] at hrate
  simp at hrate
  omega

/-- How many samples a time takes at a rate that is a whole number. -/
theorem samples_eq_ok_iff (hrate : settings.sampleRate.measure = .exact rate) :
    settings.samples time = .ok n ↔
      (∃ k, time.measure = .exact k ∧ n = rate * k) ∨
        ∃ y x c, time.measure = .approximate y ∧ ofInt rate = .ok x ∧
          view (x * y) = .finite c ∧ n = c.truncate := by
  unfold samples Number.mul
  rw [hrate]
  cases time.measure with
  | exact k =>
    constructor
    · intro h
      exact .inl ⟨k, rfl, (Except.ok.inj h).symm⟩
    · rintro (⟨k', hk, rfl⟩ | ⟨y, x, c, hy, -⟩)
      · cases hk
        rfl
      · cases hy
  | approximate y =>
    constructor
    · intro h
      obtain ⟨product, hproduct, h⟩ := bind_eq_ok_iff.mp h
      obtain ⟨x, hx, hproduct⟩ := bind_eq_ok_iff.mp hproduct
      cases hproduct
      obtain ⟨c, hc, rfl⟩ := exists_view_of_toInt h
      exact .inr ⟨y, x, c, rfl, hx, hc, rfl⟩
    · rintro (⟨k, hk, -⟩ | ⟨y', x, c, hy, hx, hc, rfl⟩)
      · cases hk
      · cases hy
        refine bind_eq_ok_iff.mpr ⟨_, bind_eq_ok_iff.mpr ⟨x, hx, rfl⟩, ?_⟩
        exact toInt_of_view hc

/-- What is not below zero and not a not-a-number takes no samples below zero. -/
theorem samples_nonneg (hrate : settings.sampleRate.measure = .exact rate)
    (htime : time.isNegative = false) (h : settings.samples time = .ok n) : 0 ≤ n := by
  have hpositive := one_le_rate hrate
  unfold Number.isNegative at htime
  rcases (samples_eq_ok_iff hrate).mp h with ⟨k, hk, rfl⟩ | ⟨y, x, c, hy, hx, hc, rfl⟩
  · rw [hk] at htime
    simp at htime
    exact Int.mul_nonneg (by omega) htime
  · rw [hy] at htime
    obtain ⟨⟨a, ha⟩, b, hb⟩ := exists_view_of_mul hc
    have ha1 := one_le_value_ofInt hpositive hx ha
    have hb0 : 0 ≤ b.value := by
      by_contra hneg
      have hless := (lt_iff_value_lt hb view_zero).mpr (by simpa [Dyadic.value] using hneg)
      exact of_decide_eq_false htime hless
    refine Dyadic.truncate_nonneg ?_
    exact ((nearest_mul ha hb hc).adjoins _ representable_zero).1 (mul_nonneg (by linarith) hb0)

end Settings

namespace Score

variable {score : Score} {rate padding : Int} {playing : Binary64.Dyadic} {n : Int}

/-- What a buffer is laid out for: a whole number of samples in a second, those of the padding, and a
playing time. -/
structure Laid (score : Score) (rate padding : Int) (playing : Binary64.Dyadic) : Prop where
  rate_eq : score.settings.sampleRate.measure = .exact rate
  padding_eq : score.settings.paddingSamples = .ok padding
  seconds_eq : ∃ seconds, score.seconds = .ok seconds ∧ view seconds = .finite playing

/-- **When a buffer has a length.** -/
theorem bufferLength_eq_whole_iff :
    score.bufferLength = .ok (.whole n) ↔
      ∃ rate padding playing, score.Laid rate padding playing ∧
        n = rate * playing.ceil + padding := by
  constructor
  · intro h
    cases hrate : score.settings.sampleRate.measure with
    | exact rate =>
      obtain ⟨seconds, d, padding, hseconds, hd, hpadding, hn⟩ :=
        Rendering.bufferLength_eq_ok hrate h
      exact ⟨rate, padding, d, ⟨hrate, hpadding, seconds, hseconds, hd⟩, Number.whole.inj hn⟩
    | approximate x =>
      obtain ⟨seconds, -, h⟩ := bind_eq_ok_iff.mp h
      obtain ⟨whole, -, h⟩ := bind_eq_ok_iff.mp h
      obtain ⟨playing, hplaying, h⟩ := bind_eq_ok_iff.mp h
      obtain ⟨padding, -, h⟩ := bind_eq_ok_iff.mp h
      unfold Number.mul at hplaying
      rw [hrate] at hplaying
      obtain ⟨y, -, hplaying⟩ := bind_eq_ok_iff.mp hplaying
      cases hplaying
      obtain ⟨z, -, h⟩ := bind_eq_ok_iff.mp h
      cases h
  · rintro ⟨rate, padding, playing, ⟨hrate, hpadding, seconds, hseconds, hd⟩, rfl⟩
    have hwhole := @toInt_of_view Dyadic.ceil _ _ hd
    unfold bufferLength
    rw [hseconds, hpadding]
    simp only [bind, Except.bind, hwhole]
    unfold Number.mul
    rw [hrate]
    rfl

namespace Laid

theorem bounds (h : score.Laid rate padding playing) :
    1 ≤ rate ∧ 0 ≤ padding ∧ 0 ≤ playing.value ∧ 0 ≤ playing.ceil := by
  obtain ⟨hrate, hpadding, seconds, hseconds, hd⟩ := h
  have hplaying := value_seconds_nonneg hseconds hd
  refine ⟨Settings.one_le_rate hrate, Settings.samples_nonneg hrate score.settings.padding_nonneg
    hpadding, hplaying, ?_⟩
  exact_mod_cast hplaying.trans playing.le_ceil

theorem length_nonneg (h : score.Laid rate padding playing) :
    0 ≤ rate * playing.ceil + padding := by
  obtain ⟨hrate, hpadding, -, hceil⟩ := h.bounds
  have := Int.mul_nonneg (by omega : 0 ≤ rate) hceil
  omega

end Laid

end Score
end Chiptune
