import Mathlib.Data.List.Forall2
import Chiptune.Proofs.Binary64.Value
import Chiptune.Proofs.Rendering.NormalForm

/-!
# Saturation

A mix past the range of a sample is cut to the end of the range that it is past. What is cut,
though, is a sum in words of 32 bits of contributions that are such words themselves, while volumes
are whole numbers of any size. A contribution that is no word becomes the least word, on whichever
side it is, and the sum goes round the words.

So the sample is the exact sum of the exact contributions, cut, where the sum in words is cut to the
same sample, and nowhere else (`toInt_sample_eq_iff`); it is so wherever contributions and sum are
words. That this can fail is `toInt_sample_wraps`.
-/

namespace Chiptune
namespace Rendering

/-! ## What is rounded -/

/-- The signal times the envelope of a note so many samples behind its start, before it is rounded
to a sample; zero for a note that is silent. -/
def noteLevel (registry : Registry Generator) (settings : Settings) (tempo : Number)
    (channelCount : Nat) (note : Note) (distance : Nat) : Except Error Float :=
  if note.volume = 0 then .ok 0
  else
    match registry.find? note.timbre, note.frequency with
    | some generator, .ok frequency => do
      let count ← noteCount tempo settings.sampleRate note
      let shape : Envelope Float :=
        { count := ← Binary64.ofInt count
          amplitude := ← amplitude note channelCount
          attack := ← fadeLength (← settings.attackSamples)
          decay := ← fadeLength (← settings.decaySamples) }
      let time := position distance / (← settings.sampleRate.toFloat)
      let signal ← generator (.real frequency)
      return signal time * shape.value (position distance)
    | _, _ => .ok 0

theorem toSample_zero : toSample 0 = 0 := by
  obtain ⟨hlow, hhigh⟩ := @Binary64.Dyadic.round_bounds ⟨0, -1074⟩ 0
    (by simp [Binary64.Dyadic.value]) (by simp [Binary64.Dyadic.value])
  have hround : Binary64.Dyadic.round ⟨0, -1074⟩ = 0 := by omega
  simp only [toSample, Binary64.view_zero, hround]
  rfl

variable {registry : Registry Generator} {settings : Settings} {tempo : Number} {channelCount : Nat}

/-- The value of a note is its level, rounded. -/
theorem noteValue_eq (note : Note) (distance : Nat) :
    noteValue registry settings tempo channelCount note distance =
      toSample <$> noteLevel registry settings tempo channelCount note distance := by
  have hzero : (Except.ok 0 : Except Error Int32) = toSample <$> Except.ok (0 : Float) :=
    congrArg Except.ok toSample_zero.symm
  unfold noteValue noteLevel
  split
  · exact hzero
  · cases registry.find? note.timbre with
    | none => exact hzero
    | some generator =>
      cases note.frequency with
      | error error => exact hzero
      | ok frequency =>
        simp only [map_bind, map_pure]

/-- What a channel adds at a place, before it is rounded. -/
structure Contributes (registry : Registry Generator) (settings : Settings) (tempo : Number)
    (channelCount : Nat) (notes : List Note) (place : Nat) (level : Float) : Prop where
  inside : ∀ k note distance, InWindow tempo settings.sampleRate notes k note place distance →
    noteLevel registry settings tempo channelCount note distance = .ok level
  outside : (∀ k note distance, ¬ InWindow tempo settings.sampleRate notes k note place distance) →
    level = 0

theorem Contributes.of_inWindow {notes : List Note} {k : Nat} {note : Note}
    {place distance : Nat} {level : Float} (htempo : tempo.isNotPositive = false)
    (hin : InWindow tempo settings.sampleRate notes k note place distance)
    (h : noteLevel registry settings tempo channelCount note distance = .ok level) :
    Contributes registry settings tempo channelCount notes place level := by
  refine ⟨fun k' note' distance' hin' => ?_, fun hnone => absurd hin (hnone k note distance)⟩
  obtain ⟨-, rfl, rfl⟩ := hin.unique htempo settings.rate_positive hin'
  exact h

/-- What is heard is a contribution, rounded. -/
theorem Heard.exists_contributes {notes : List Note} {place : Nat} {value : Int32}
    (htempo : tempo.isNotPositive = false)
    (h : Heard registry settings tempo channelCount notes place value) :
    ∃ level, Contributes registry settings tempo channelCount notes place level ∧
      toSample level = value := by
  by_cases hany : ∃ k note distance,
      InWindow tempo settings.sampleRate notes k note place distance
  · obtain ⟨k, note, distance, hin⟩ := hany
    have hvalue := h.inside _ _ _ hin
    rw [noteValue_eq] at hvalue
    cases hlevel : noteLevel registry settings tempo channelCount note distance with
    | ok level =>
      rw [hlevel] at hvalue
      exact ⟨level, .of_inWindow htempo hin hlevel, Except.ok.inj hvalue⟩
    | error error =>
      rw [hlevel] at hvalue
      cases hvalue
  · have hnone : ∀ k note distance,
        ¬ InWindow tempo settings.sampleRate notes k note place distance :=
      fun k note distance hin => hany ⟨k, note, distance, hin⟩
    refine ⟨0, ⟨fun k note distance hin => absurd hin (hnone k note distance), fun _ => rfl⟩, ?_⟩
    rw [h.outside hnone, toSample_zero]

theorem exists_levels {channels : List Channel} {values : List Int32} {place : Nat}
    (htempo : tempo.isNotPositive = false)
    (h : List.Forall₂ (fun channel value =>
      Heard registry settings tempo channelCount channel.notes.toList place value)
      channels values) :
    ∃ levels : List Float, List.Forall₂ (fun channel level =>
      Contributes registry settings tempo channelCount channel.notes.toList place level)
      channels levels ∧ levels.map toSample = values := by
  induction h with
  | nil => exact ⟨[], .nil, rfl⟩
  | cons hheard _ ih =>
    obtain ⟨levels, hlevels, rfl⟩ := ih
    obtain ⟨level, hlevel, rfl⟩ := hheard.exists_contributes htempo
    exact ⟨level :: levels, .cons hlevel hlevels, rfl⟩

/-! ## Words -/

/-- The word that stands for a whole number: the least one for all that are not words. -/
def word (n : Int) : Int := if -2 ^ 31 ≤ n ∧ n < 2 ^ 31 then n else -2 ^ 31

/-- The sample that stands for a sum. -/
def cut (sum : Int) : Int := max (-128) (min 127 sum)

theorem cut_eq_cut_iff {a b : Int} :
    cut a = cut b ↔ a = b ∨ (127 ≤ a ∧ 127 ≤ b) ∨ (a ≤ -128 ∧ b ≤ -128) := by
  unfold cut
  omega

theorem toInt_toSample {level : Float} {n : Int}
    (h : Binary64.toInt Binary64.Dyadic.round level = .ok n) : (toSample level).toInt = word n := by
  unfold Binary64.toInt at h
  unfold toSample word
  split at h
  · rename_i d hd
    cases h
    rw [hd]
    simp only
    split
    · rename_i hfits
      rw [if_pos (by omega), Int32.toInt_ofInt_of_le (by omega) (by omega)]
    · rw [if_neg (by omega)]
      rfl
  · cases h
  · cases h

/-- A sum of words goes round the words. -/
theorem toInt_sum (values : List Int32) :
    values.sum.toInt = (values.map Int32.toInt).sum.bmod (2 ^ 32) := by
  induction values with
  | nil => rfl
  | cons value rest ih =>
    rw [List.sum_cons, List.map_cons, List.sum_cons, Int32.toInt_add, ih, Int.add_bmod_bmod]

/-! ## The mix -/

variable {length : Number} {channels : List Channel} {rendering : Rendering}

/-- The sample at a place, from what the channels contribute there. -/
theorem toInt_sample_eq [Room]
    (h : (ofChannels registry settings tempo length channels).outcome = .ok rendering) {i : Nat}
    (hi : i < rendering.samples.size) :
    ∃ levels : List Float,
      List.Forall₂ (fun channel level => Contributes registry settings tempo channels.length
        channel.notes.toList i level) channels levels ∧
      rendering.samples[i].toInt =
        cut ((levels.map fun level => (toSample level).toInt).sum.bmod (2 ^ 32)) := by
  obtain ⟨htempo, -⟩ := ofChannels_eq_ok h
  obtain ⟨_, _, _, _, _, hsamples⟩ := inNormalForm_ofChannels h
  obtain ⟨values, hvalues, -, hsample⟩ := hsamples i hi
  obtain ⟨levels, hlevels, rfl⟩ := exists_levels htempo hvalues
  refine ⟨levels, hlevels, ?_⟩
  rw [hsample, toInt_sum, List.map_map]
  rfl

/-- **Where the mix saturates.** The sample is the exact sum of what the channels contribute, cut to
its range, exactly where the sum in words is the same or past the same end of the range: so
wherever the contributions and their sum are words. -/
theorem toInt_sample_eq_iff [Room]
    (h : (ofChannels registry settings tempo length channels).outcome = .ok rendering) {i : Nat}
    (hi : i < rendering.samples.size) :
    ∃ levels : List Float,
      List.Forall₂ (fun channel level => Contributes registry settings tempo channels.length
        channel.notes.toList i level) channels levels ∧
      ∀ exact : List Int,
        List.Forall₂ (fun level n => Binary64.toInt Binary64.Dyadic.round level = .ok n)
          levels exact →
        let held := (exact.map word).sum.bmod (2 ^ 32)
        (rendering.samples[i].toInt = cut exact.sum ↔
          held = exact.sum ∨ (127 ≤ held ∧ 127 ≤ exact.sum) ∨
            (held ≤ -128 ∧ exact.sum ≤ -128)) ∧
        ((∀ n ∈ exact, word n = n) → word exact.sum = exact.sum →
          rendering.samples[i].toInt = cut exact.sum) := by
  obtain ⟨levels, hlevels, hsample⟩ := toInt_sample_eq h hi
  refine ⟨levels, hlevels, fun exact hexact => ?_⟩
  intro held
  have hwords : levels.map (fun level => (toSample level).toInt) = exact.map word := by
    clear hsample hlevels held
    induction hexact with
    | nil => rfl
    | cons hround _ ih => rw [List.map_cons, List.map_cons, ih, toInt_toSample hround]
  rw [hwords] at hsample
  have hiff : rendering.samples[i].toInt = cut exact.sum ↔
      held = exact.sum ∨ (127 ≤ held ∧ 127 ≤ exact.sum) ∨ (held ≤ -128 ∧ exact.sum ≤ -128) := by
    rw [hsample, cut_eq_cut_iff]
  refine ⟨hiff, fun hfit hsum => hiff.mpr (Or.inl ?_)⟩
  have hsame : exact.map word = exact := by
    conv_rhs => rw [← List.map_id exact]
    exact List.map_congr_left hfit
  show (exact.map word).sum.bmod (2 ^ 32) = exact.sum
  rw [hsame]
  unfold word at hsum
  exact Int.bmod_eq_of_le (by omega) (by omega)

/-! A generator that never changes, with no fades, makes every contribution of a note the same. -/

section Flat

def flat : Registry Generator := ⟨[("flat", fun _ => .ok fun _ => 1.0)]⟩

def unfaded : Settings := ⟨.whole 8, .whole 0, .whole 0, .whole 0, rfl, rfl, rfl, rfl⟩

/-- A note of two samples, at a quarter note a second. -/
def tone (volume : Int) : Note :=
  ⟨⟨9, by decide⟩, 16, 4, volume, "flat", false, by decide, nofun⟩

theorem noteCount_tone (volume : Int) :
    noteCount (.whole 60) unfaded.sampleRate (tone volume) = .ok 2 := by
  have hsame : (tone volume).duration = (tone 0).duration := rfl
  rw [noteCount_congr hsame]
  rfl

theorem inWindow_tone (volume : Int) :
    InWindow (.whole 60) unfaded.sampleRate [tone volume] 0 (tone volume) 0 0 :=
  (inWindow_zero (noteCount_tone volume)).mpr ⟨rfl, rfl, by decide⟩

/-- Two tones of full volume: what they contribute are words, and so is their sum, which is cut. -/
theorem toInt_sample_two_tones :
    ∃ rendering, (ofChannels flat unfaded (.whole 60) (.whole 2)
        [⟨"a", #[tone 255]⟩, ⟨"b", #[tone 255]⟩]).outcome = .ok rendering ∧
      ∃ (levels : List Float) (hroom : 0 < rendering.samples.size),
        List.Forall₂ (fun level n => Binary64.toInt Binary64.Dyadic.round level = .ok n)
          levels [64, 64] ∧
        rendering.samples[0].toInt = cut 128 := by
  obtain ⟨rendering, hrendering⟩ := isSome_toOption_iff.mp (show (ofChannels flat unfaded
    (.whole 60) (.whole 2) [⟨"a", #[tone 255]⟩, ⟨"b", #[tone 255]⟩]).outcome.toOption.isSome =
      true by decide +kernel)
  have hroom : 0 < rendering.samples.size := by
    obtain ⟨size, _, hsize, hsize', -⟩ := inNormalForm_ofChannels hrendering
    have hlength : (2 : Int) = size := Number.whole.inj hsize
    omega
  obtain ⟨levels, hlevels, hcut⟩ := toInt_sample_eq_iff hrendering hroom
  have hround : ∀ level, Contributes flat unfaded (.whole 60) 2 [tone 255] 0 level →
      Binary64.toInt Binary64.Dyadic.round level = .ok 64 := by
    intro level hlevel
    have hnote : (noteLevel flat unfaded (.whole 60) 2 (tone 255) 0 >>=
        Binary64.toInt Binary64.Dyadic.round) = .ok 64 :=
      toOption_eq_some_iff.mp (by decide +kernel)
    rwa [hlevel.inside _ _ _ (inWindow_tone 255)] at hnote
  have hexact : List.Forall₂ (fun level n => Binary64.toInt Binary64.Dyadic.round level = .ok n)
      levels [64, 64] := by
    obtain ⟨first, rest, hfirst, hrest, rfl⟩ := List.forall₂_cons_left_iff.mp hlevels
    obtain ⟨second, none, hsecond, hnone, rfl⟩ := List.forall₂_cons_left_iff.mp hrest
    cases hnone
    exact .cons (hround _ hfirst) (.cons (hround _ hsecond) .nil)
  exact ⟨rendering, hrendering, levels, hroom, hexact, (hcut [64, 64] hexact).2 (by decide)
    (by decide)⟩

/-- A tone that contributes five thousand million, and the least sample in its place. -/
theorem toInt_sample_wraps :
    ∃ rendering level, (ofChannels flat unfaded (.whole 60) (.whole 2)
        [⟨"a", #[tone (10 ^ 10)]⟩]).outcome = .ok rendering ∧
      Contributes flat unfaded (.whole 60) 1 [tone (10 ^ 10)] 0 level ∧
      Binary64.toInt Binary64.Dyadic.round level = .ok (5 * 10 ^ 9) ∧
      rendering.samples[0]?.map Int8.toInt = some (-128) ∧ cut (5 * 10 ^ 9) = 127 := by
  obtain ⟨rendering, hrendering, hsamples⟩ := Option.map_eq_some_iff.mp (show ((ofChannels flat
    unfaded (.whole 60) (.whole 2) [⟨"a", #[tone (10 ^ 10)]⟩]).outcome.toOption.map (·.samples)) =
      some #[-128, -128] by decide +kernel)
  obtain ⟨level, hlevel, hround⟩ := bind_eq_ok_iff.mp (toOption_eq_some_iff.mp
    (show (noteLevel flat unfaded (.whole 60) 1 (tone (10 ^ 10)) 0 >>=
      Binary64.toInt Binary64.Dyadic.round).toOption = some (5 * 10 ^ 9) by decide +kernel))
  refine ⟨rendering, level, toOption_eq_some_iff.mp hrendering,
    .of_inWindow rfl (inWindow_tone _) hlevel, hround, ?_, by decide⟩
  rw [hsamples]
  decide

end Flat

end Rendering
end Chiptune
