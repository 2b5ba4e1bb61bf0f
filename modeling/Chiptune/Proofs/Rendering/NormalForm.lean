import Mathlib.Data.List.Forall2
import Chiptune.Proofs.Rendering.Apart
import Chiptune.Proofs.Rendering.Window

/-!
# The normal form of a rendering

A rendering adds the notes of one channel after the other to its buffer, and leaves a channel where
the buffer is full. What comes of it can be said place by place. At any place a channel adds one
value (`Heard`): the value of the note in whose window the place is, or zero where there is none. The
value is a function of the note, of the distance from its start and of what is the same for the
whole piece (`noteValue`). The sample is the sum of those values, cut to the range of a sample:
`samples_ofChannels`.

The proof follows one channel, in a row of its own (`Apart.lean`). Whatever becomes of a note, the row
grows by the part of its window that fits, filled with its values (`Shows.step`): that is the one
step, and the ways through the loop differ only in how they come by the values. Where a note is cut
off, the row is full, and nothing is claimed about the notes behind it.
-/

namespace Chiptune
namespace Rendering

/-! ## What one note adds -/

/-- The value of a note so many samples behind its start: nothing where its volume is zero, its
timbre has no generator or its frequency is no float; else the signal times the envelope of the
whole note, rounded. -/
def noteValue (registry : Registry Generator) (settings : Settings) (tempo : Number)
    (channelCount : Nat) (note : Note) (distance : Nat) : Except Error Int32 :=
  if note.volume = 0 then .ok 0
  else
    match registry.find? note.timbre, note.frequency with
    | some generator, .ok frequency => do
      let count ← noteCount tempo settings.sampleRate note
      let shape : Envelope Float :=
        { count := ← Binary64.ofInt count
          amplitude := ← amplitude note channelCount
          attack := ← fadeLength (← settings.attackSamples)
          decay := ← fadeLength (← settings.decaySamples) }
      let time := position distance / (← settings.sampleRate.toFloat)
      let signal ← generator (.real frequency)
      return toSample (signal time * shape.value (position distance))
    | _, _ => .ok 0

theorem noteValue_of_volume_zero {registry : Registry Generator} {settings : Settings}
    {tempo : Number} {channelCount : Nat} {note : Note} (h : note.volume = 0) (distance : Nat) :
    noteValue registry settings tempo channelCount note distance = .ok 0 := if_pos h

/-- A note that has no voice is silent. -/
theorem noteValue_of_voice_error {registry : Registry Generator} {settings : Settings}
    {tempo : Number} {channelCount : Nat} {note : Note} {cause : Error}
    (h : voice registry note = .error cause) (distance : Nat) :
    noteValue registry settings tempo channelCount note distance = .ok 0 := by
  unfold noteValue
  split
  · rfl
  · unfold voice Registry.get noteFrequency at h
    split
    · rename_i hgenerator hfrequency
      rw [hgenerator, hfrequency] at h
      cases h
    · rfl

/-- What a note sounds like is its value. -/
theorem noteValue_of_sound {setup : Setup} {note : Note} {count : Int} {generator : Generator}
    {frequency : Float} {value : Nat → Int32} (hvolume : note.volume ≠ 0)
    (hcount : noteCount setup.tempo setup.settings.sampleRate note = .ok count)
    (hvoice : voice setup.registry note = .ok (generator, frequency))
    (h : sound setup note count generator frequency = .ok value) (distance : Nat) :
    noteValue setup.registry setup.settings setup.tempo setup.channelCount note distance =
      .ok (value distance) := by
  obtain ⟨hgenerator, hfrequency⟩ : setup.registry.find? note.timbre = some generator ∧
      note.frequency = .ok frequency := by
    unfold voice Registry.get noteFrequency at hvoice
    cases hfound : setup.registry.find? note.timbre <;> rw [hfound] at hvoice
    · cases hvoice
    · cases hfrequency : note.frequency <;> rw [hfrequency] at hvoice <;> cases hvoice
      exact ⟨rfl, rfl⟩
  unfold sound at h
  obtain ⟨peak, hpeak, h⟩ := bind_eq_ok_iff.mp h
  obtain ⟨attack, hattack, h⟩ := bind_eq_ok_iff.mp h
  obtain ⟨decay, hdecay, h⟩ := bind_eq_ok_iff.mp h
  obtain ⟨whole, hwhole, h⟩ := bind_eq_ok_iff.mp h
  obtain ⟨fadeIn, hfadeIn, h⟩ := bind_eq_ok_iff.mp h
  obtain ⟨fadeOut, hfadeOut, h⟩ := bind_eq_ok_iff.mp h
  obtain ⟨rate, hrate, h⟩ := bind_eq_ok_iff.mp h
  obtain ⟨signal, hsignal, h⟩ := bind_eq_ok_iff.mp h
  cases h
  unfold noteValue
  rw [if_neg hvolume, hgenerator, hfrequency]
  simp only [hcount, hpeak, hattack, hdecay, hwhole, hfadeIn, hfadeOut, hrate, hsignal, bind,
    Except.bind, pure, Except.pure]

/-! ## What a channel adds -/

/-- What a channel adds at a place: the value of the note whose window has the place, or zero. -/
structure Heard (registry : Registry Generator) (settings : Settings) (tempo : Number)
    (channelCount : Nat) (notes : List Note) (place : Nat) (value : Int32) : Prop where
  inside : ∀ k note distance, InWindow tempo settings.sampleRate notes k note place distance →
    noteValue registry settings tempo channelCount note distance = .ok value
  outside : (∀ k note distance, ¬ InWindow tempo settings.sampleRate notes k note place distance) →
    value = 0

namespace Heard

variable {registry : Registry Generator} {settings : Settings} {tempo : Number} {channelCount : Nat}
variable {note : Note} {later : List Note} {count : Int} {place : Nat} {value : Int32}

theorem nil : Heard registry settings tempo channelCount [] place 0 :=
  ⟨fun _ _ _ h => absurd h inWindow_nil, fun _ => rfl⟩

/-- In the window of the first note its value is heard. -/
theorem cons_of_lt (htempo : tempo.isNotPositive = false)
    (hcount : noteCount tempo settings.sampleRate note = .ok count) (hlt : (place : Int) < count)
    (hvalue : noteValue registry settings tempo channelCount note place = .ok value) :
    Heard registry settings tempo channelCount (note :: later) place value := by
  refine ⟨fun k note' distance h => ?_, fun h => ?_⟩
  · cases k with
    | zero =>
      obtain ⟨rfl, rfl, -⟩ := (inWindow_zero hcount).mp h
      exact hvalue
    | succ k =>
      have := ((inWindow_succ htempo settings.rate_positive hcount).mp h).1
      omega
  · exact absurd ((inWindow_zero hcount).mpr ⟨rfl, rfl, hlt⟩) (h 0 note place)

/-- Behind it, what is heard of the later notes. -/
theorem cons_of_le (htempo : tempo.isNotPositive = false)
    (hcount : noteCount tempo settings.sampleRate note = .ok count) (hle : count ≤ place)
    (h : Heard registry settings tempo channelCount later (place - count.toNat) value) :
    Heard registry settings tempo channelCount (note :: later) place value := by
  have hsucc := fun k note' distance =>
    @inWindow_succ tempo settings.sampleRate note note' later k place distance count htempo
      settings.rate_positive hcount
  refine ⟨fun k note' distance hin => ?_, fun hout => h.outside fun k note' distance hin => ?_⟩
  · cases k with
    | zero =>
      obtain ⟨-, rfl, hlt⟩ := (inWindow_zero hcount).mp hin
      omega
    | succ k => exact h.inside _ _ _ ((hsucc k note' distance).mp hin).2
  · exact hout (k + 1) note' distance ((hsucc k note' distance).mpr ⟨hle, hin⟩)

/-- Outside its window, a note may be any other that lasts as long. -/
theorem set {notes : List Note} {k : Nat} {old new : Note} (hold : notes[k]? = some old)
    (hduration : new.duration = old.duration)
    (houtside : ∀ distance, ¬ InWindow tempo settings.sampleRate notes k old place distance)
    (h : Heard registry settings tempo channelCount notes place value) :
    Heard registry settings tempo channelCount (notes.set k new) place value := by
  have hiff := fun m note distance =>
    @inWindow_set tempo settings.sampleRate note m place distance notes old new k hold hduration
  refine ⟨fun m note distance hin => ?_, fun hnone => h.outside fun m note distance hin => ?_⟩
  · have hwas := (hiff m note distance).mp hin
    split at hwas
    · exact absurd hwas.2 (houtside distance)
    · exact h.inside _ _ _ hwas
  · refine hnone m note distance ((hiff m note distance).mpr ?_)
    split
    · rename_i hm
      subst hm
      obtain rfl : old = note := Option.some.inj (hold.symm.trans hin.note_eq)
      exact absurd hin (houtside distance)
    · exact hin

/-- One value is heard at a place. -/
theorem unique {notes : List Note} {value' : Int32}
    (h : Heard registry settings tempo channelCount notes place value)
    (h' : Heard registry settings tempo channelCount notes place value') : value = value' := by
  by_cases hany : ∃ k note distance,
      InWindow tempo settings.sampleRate notes k note place distance
  · obtain ⟨k, note, distance, hin⟩ := hany
    exact Except.ok.inj ((h.inside _ _ _ hin).symm.trans (h'.inside _ _ _ hin))
  · have hnone : ∀ k note distance,
        ¬ InWindow tempo settings.sampleRate notes k note place distance :=
      fun k note distance hin => hany ⟨k, note, distance, hin⟩
    rw [h.outside hnone, h'.outside hnone]

end Heard

/-! ## The run through one channel -/

/-- What a part shows at a place, given the part that it was before some notes: the same where that
one had samples, and behind those what is heard of the notes. -/
structure Shows (setup : Setup) (before : Part) (notes : List Note) (place : Nat)
    (value : Int32) : Prop where
  old : place < before.samples.size → value = before.samples.getD place 0
  new : before.samples.size ≤ place → Heard setup.registry setup.settings setup.tempo
    setup.channelCount notes (place - before.samples.size) value

variable {setup : Setup} {before next result : Part} {note : Note} {later : List Note}

/-- **The step.** The row grows by as much of the window of a note as fits, filled with the values of
the note. -/
theorem Shows.step {count : Int} {span place : Nat} {values : Nat → Int32} {value : Int32}
    (htempo : setup.tempo.isNotPositive = false) (hplace : place < setup.length)
    (hcount : noteCount setup.tempo setup.settings.sampleRate note = .ok count)
    (hspan : span = min count.toNat (setup.length - before.samples.size))
    (hnext : next.samples = (before.extend span values).samples)
    (hvalues : ∀ d < span, noteValue setup.registry setup.settings setup.tempo setup.channelCount
      note d = .ok (values d))
    (h : Shows setup next later place value) : Shows setup before (note :: later) place value := by
  have hnonneg := noteCount_nonneg htempo setup.settings.rate_positive hcount
  have hsize : next.samples.size = before.samples.size + span := by
    rw [hnext, Part.size_extend]
  have hget := Part.getD_extend before span place values
  rw [← hnext] at hget
  refine ⟨fun hlt => ?_, fun hle => ?_⟩
  · rw [h.old (by omega), hget, if_pos hlt]
  · by_cases hinside : place < before.samples.size + span
    · rw [h.old (by omega), hget, if_neg (by omega), if_pos hinside]
      exact Heard.cons_of_lt htempo hcount (by omega) (hvalues _ (by omega))
    · -- Behind the note there is still buffer, so the note was not cut off.
      have hrest := h.new (by omega)
      rw [hsize] at hrest
      refine Heard.cons_of_le htempo hcount (by omega) ?_
      rw [show place - before.samples.size - count.toNat = place - (before.samples.size + span) by
        omega]
      exact hrest

/-- The step of a note that stays silent. -/
theorem Shows.rest {count : Int} {span place : Nat} {value : Int32}
    (htempo : setup.tempo.isNotPositive = false) (hplace : place < setup.length)
    (hcount : noteCount setup.tempo setup.settings.sampleRate note = .ok count)
    (hspan : span = min count.toNat (setup.length - before.samples.size))
    (hsilent : ∀ d < span, noteValue setup.registry setup.settings setup.tempo setup.channelCount
      note d = .ok 0)
    (h : Shows setup (before.rest span) later place value) :
    Shows setup before (note :: later) place value := by
  have hsamples : (before.rest span).samples = (before.extend span fun _ => 0).samples :=
    congrArg Part.samples (Part.rest_eq_extend before span)
  exact Shows.step htempo hplace hcount hspan hsamples hsilent h

/-- **What the run through a channel shows.** -/
theorem addNotes_shows {channel : String} {notes : List Note} {place : Nat}
    (htempo : setup.tempo.isNotPositive = false) (hplace : place < setup.length)
    (h : (before.addNotes setup channel notes).outcome = .ok result) :
    Shows setup before notes place (result.samples.getD place 0) := by
  induction notes generalizing before with
  | nil =>
    cases h
    refine ⟨fun _ => rfl, fun hle => ?_⟩
    rw [Array.getD_eq_getD_getElem?, Array.getElem?_eq_none hle]
    exact Heard.nil
  | cons note later ih =>
    unfold Part.addNotes at h
    split at h
    · rename_i hfull
      cases h
      exact ⟨fun _ => rfl, fun hle => by omega⟩
    · rename_i hroom
      obtain ⟨seconds, hseconds, h⟩ := Report.outcome_bind_eq_ok.mp h
      obtain ⟨count, hcounted, h⟩ := Report.outcome_bind_eq_ok.mp h
      have hcount : noteCount setup.tempo setup.settings.sampleRate note = .ok count :=
        bind_eq_ok_iff.mpr ⟨seconds, hseconds, hcounted⟩
      simp only at h
      split at h
      · rename_i hsilent
        refine Shows.rest htempo hplace hcount rfl (fun d hd => ?_) (ih h)
        rcases hsilent with hvolume | hnone
        · exact noteValue_of_volume_zero hvolume d
        · omega
      · rename_i hsounds
        split at h
        · rename_i generator frequency hvoice
          obtain ⟨values, hsound, h⟩ := Report.outcome_bind_eq_ok.mp h
          exact Shows.step htempo hplace hcount rfl rfl
            (fun d _ => noteValue_of_sound (fun hzero => hsounds (Or.inl hzero)) hcount hvoice
              hsound d) (ih h)
        · rename_i cause hvoice
          split at h
          · obtain ⟨-, -, h⟩ := Report.outcome_bind_eq_ok.mp h
            -- The part with one refusal more has the same samples.
            have hshows := ih h
            exact Shows.rest htempo hplace hcount rfl
              (fun d _ => noteValue_of_voice_error hvoice d) ⟨hshows.old, hshows.new⟩
          · cases h

/-! ## Mixing -/

/-- The parts of a piece are those of its channels. -/
theorem forall₂_parts {channels : List Channel} {rendered : List Part}
    (h : (parts setup channels).outcome = .ok rendered) :
    List.Forall₂ (fun channel part =>
      (Part.addNotes setup channel.name ⟨#[], []⟩ channel.notes.toList).outcome = .ok part)
      channels rendered := by
  induction channels generalizing rendered with
  | nil =>
    cases h
    exact .nil
  | cons channel rest ih =>
    obtain ⟨part, hpart, h⟩ := Report.outcome_bind_eq_ok.mp h
    obtain ⟨others, hothers, h⟩ := Report.outcome_bind_eq_ok.mp h
    cases h
    exact .cons hpart (ih hothers)

/-- What the parts of a piece have at a place is what is heard of its channels. -/
theorem forall₂_heard {channels : List Channel} {rendered : List Part} {place : Nat}
    (htempo : setup.tempo.isNotPositive = false) (hplace : place < setup.length)
    (h : (parts setup channels).outcome = .ok rendered) :
    List.Forall₂ (fun channel value => Heard setup.registry setup.settings setup.tempo
      setup.channelCount channel.notes.toList place value)
      channels (rendered.map fun part => part.samples.getD place 0) := by
  rw [List.forall₂_map_right_iff]
  refine (forall₂_parts h).imp fun channel part hpart => ?_
  exact (addNotes_shows htempo hplace hpart).new (Nat.zero_le _)

theorem sumAt_eq (rendered : List Part) (place : Nat) :
    sumAt rendered place = (rendered.map fun part => part.samples.getD place 0).sum := by
  rw [List.sum_eq_foldl, List.foldl_map]
  rfl

/-- A sum is cut to the range of a sample. -/
theorem toInt_clip (sum : Int32) : (clip sum).toInt = max (-128) (min 127 sum.toInt) := by
  have hlow : sum < -128 ↔ sum.toInt < -128 := Int32.lt_iff_toInt_lt
  have hhigh : 127 < sum ↔ 127 < sum.toInt := Int32.lt_iff_toInt_lt
  unfold clip
  rw [if_congr hlow rfl rfl, if_congr hhigh rfl rfl]
  split
  · show (-128 : Int) = _
    omega
  · split
    · show (127 : Int) = _
      omega
    · rw [Int32.toInt_toInt8, Int.bmod_eq_of_le (by omega) (by omega)]
      omega

theorem bufferSize_eq_ok [Room] {length : Number} {size : Nat} (h : bufferSize length = .ok size) :
    length = .whole size := by
  unfold bufferSize at h
  split at h
  · rename_i n
    unfold placesOf at h
    simp only at h
    repeat' split at h
    all_goals cases h
    rename_i hnonneg _ _
    rw [Int.toNat_of_nonneg (by omega)]
  · cases h
  · cases h

/-- What a rendering is made of. -/
theorem ofChannels_eq_ok [Room] {registry : Registry Generator} {settings : Settings}
    {tempo length : Number} {channels : List Channel} {rendering : Rendering}
    (h : (ofChannels registry settings tempo length channels).outcome = .ok rendering) :
    tempo.isNotPositive = false ∧ ∃ (size : Nat) (rendered : List Part), length = .whole size ∧
      (parts ⟨tempo, size, channels.length, settings, registry⟩ channels).outcome = .ok rendered ∧
        rendering = ⟨(mix size rendered).map clip, settings.sampleRate,
          rendered.flatMap (·.errors)⟩ := by
  unfold ofChannels at h
  split at h
  · cases h
  · rename_i htempo
    obtain ⟨size, hsize, h⟩ := Report.outcome_bind_eq_ok.mp h
    obtain ⟨mixed, hmixed, h⟩ := Report.outcome_bind_eq_ok.mp h
    obtain ⟨rendered, hrendered, rfl⟩ := Mix.addChannels_silence_eq_ok_iff.mp hmixed
    refine ⟨by simpa using htempo, size, rendered, bufferSize_eq_ok hsize, hrendered, ?_⟩
    simp only at h
    split at h
    · obtain ⟨-, -, h⟩ := Report.outcome_bind_eq_ok.mp h
      cases h
      rfl
    · cases h
      rfl

/-! ## The normal form -/

/-- A rendering in its normal form: the buffer has the length asked for; the accumulator at every
place is the sum of what is heard of each channel; and the sample there is that sum, cut. -/
def InNormalForm (registry : Registry Generator) (settings : Settings) (tempo length : Number)
    (channels : List Channel) (rendering : Rendering) : Prop :=
  ∃ (size : Nat) (mixed : Mix), length = .whole size ∧ rendering.samples.size = size ∧
    ((Mix.silence size).addChannels ⟨tempo, size, channels.length, settings, registry⟩
      channels).outcome = .ok mixed ∧
    ∀ i (hi : i < rendering.samples.size), ∃ values : List Int32,
      List.Forall₂ (fun channel value =>
        Heard registry settings tempo channels.length channel.notes.toList i value)
        channels values ∧
      mixed.sums[i]? = some values.sum ∧
      rendering.samples[i].toInt = max (-128) (min 127 values.sum.toInt)

variable {registry : Registry Generator} {settings : Settings} {tempo length : Number}
variable {channels : List Channel} {rendering : Rendering}

theorem inNormalForm_ofChannels [Room]
    (h : (ofChannels registry settings tempo length channels).outcome = .ok rendering) :
    InNormalForm registry settings tempo length channels rendering := by
  obtain ⟨htempo, size, rendered, hlength, hrendered, heq⟩ := ofChannels_eq_ok h
  have hsamples : rendering.samples = (mix size rendered).map clip := congrArg (·.samples) heq
  have hsize : rendering.samples.size = size := by
    rw [hsamples]
    simp [mix]
  refine ⟨size, _, hlength, hsize,
    Mix.addChannels_silence_eq_ok_iff.mpr ⟨rendered, hrendered, rfl⟩, fun i hi => ?_⟩
  refine ⟨_, forall₂_heard htempo (hsize ▸ hi) hrendered, ?_, ?_⟩
  · rw [← sumAt_eq]
    simp [mix, hsize ▸ hi]
  · rw [← sumAt_eq, ← toInt_clip]
    simp [hsamples, mix]

theorem values_eq_of_forall₂ {channels channels' : List Channel} {values values' : List Int32}
    {R R' : Channel → Int32 → Prop}
    (h : List.Forall₂ R channels values) (h' : List.Forall₂ R' channels' values')
    (hlength : channels'.length = channels.length)
    (hsame : ∀ (j : Nat) (channel channel' : Channel) (value value' : Int32),
      channels[j]? = some channel → channels'[j]? = some channel' → R channel value →
        R' channel' value' → value' = value) :
    values' = values := by
  obtain ⟨hlen, hget⟩ := List.forall₂_iff_get.mp h
  obtain ⟨hlen', hget'⟩ := List.forall₂_iff_get.mp h'
  refine List.ext_getElem (by omega) fun j hj hj' => ?_
  exact hsame j _ _ _ _ (List.getElem?_eq_getElem (by omega)) (List.getElem?_eq_getElem (by omega))
    (hget j (by omega) hj') (hget' j (by omega) hj)

/-- **The normal form of a rendering.** At every place of the buffer the accumulator is the sum of
one value for each channel, the value of the note whose window has the place or zero, and the sample
is that sum cut to its range. So what a note is, apart from how long it lasts, is heard in its own
window only: another note of its duration in its place leaves every other sample as it is. -/
theorem samples_ofChannels [Room]
    (h : (ofChannels registry settings tempo length channels).outcome = .ok rendering) :
    InNormalForm registry settings tempo length channels rendering ∧
    ∀ (j k : Nat) (channel : Channel) (old new : Note) (rendering' : Rendering),
      channels[j]? = some channel → channel.notes[k]? = some old → new.duration = old.duration →
      (ofChannels registry settings tempo length (channels.set j
        { channel with notes := channel.notes.setIfInBounds k new })).outcome = .ok rendering' →
      ∀ i, (∀ distance,
          ¬ InWindow tempo settings.sampleRate channel.notes.toList k old i distance) →
        rendering'.samples[i]? = rendering.samples[i]? := by
  refine ⟨inNormalForm_ofChannels h, ?_⟩
  intro j k channel old new rendering' hchannel hold hduration h' i houtside
  obtain ⟨size, _, hlength, hsize, -, hsamples⟩ := inNormalForm_ofChannels h
  obtain ⟨size', _, hlength', hsize', -, hsamples'⟩ := inNormalForm_ofChannels h'
  obtain rfl : size' = size := by
    rw [hlength] at hlength'
    cases hlength'
    rfl
  by_cases hi : i < size'
  · obtain ⟨values, hvalues, -, hsample⟩ := hsamples i (by omega)
    obtain ⟨values', hvalues', -, hsample'⟩ := hsamples' i (by omega)
    rw [List.length_set] at hvalues'
    -- Each channel but the one is the same, and of that one the same is heard outside the window.
    have hsame : values' = values := by
      refine values_eq_of_forall₂ hvalues hvalues' (by simp) ?_
      intro m c c' value value' hc hc' hheard hheard'
      by_cases hm : j = m
      · subst hm
        obtain rfl : channel = c := Option.some.inj (hchannel.symm.trans hc)
        rw [List.getElem?_set_self (List.getElem?_eq_some_iff.mp hc).1] at hc'
        cases hc'
        rw [Array.toList_setIfInBounds] at hheard'
        exact hheard'.unique (hheard.set (by simpa using hold) hduration houtside)
      · rw [List.getElem?_set_ne hm] at hc'
        obtain rfl : c = c' := Option.some.inj (hc.symm.trans hc')
        exact hheard'.unique hheard
    rw [Array.getElem?_eq_getElem (by omega), Array.getElem?_eq_getElem (by omega)]
    rw [← hsame] at hsample
    exact congrArg some (Int8.toInt_inj.mp (hsample'.trans hsample.symm))
  · rw [Array.getElem?_eq_none (by omega), Array.getElem?_eq_none (by omega)]

/-- A rest and a tone of two samples each, in a buffer that has room for three. -/
theorem samples_ofChannels_cut :
    ∃ (registry : Registry Generator) (settings : Settings) (channel : Channel)
      (rendering : Rendering),
      (ofChannels registry settings (.whole 60) (.whole 3) [channel]).outcome = .ok rendering ∧
        rendering.samples = #[0, 0, 127] ∧
          InNormalForm registry settings (.whole 60) (.whole 3) [channel] rendering := by
  let registry : Registry Generator := ⟨[("flat", fun _ => .ok fun _ => 1.0)]⟩
  let settings : Settings := ⟨.whole 8, .whole 0, .whole 0, .whole 0, rfl, rfl, rfl, rfl⟩
  let channel : Channel :=
    ⟨"a", #[⟨0, 16, 4, 0, "flat", true, by decide, fun _ => rfl⟩,
      ⟨9, 16, 4, 255, "flat", false, by decide, by decide⟩]⟩
  have hsamples : (ofChannels registry settings (.whole 60) (.whole 3)
      [channel]).outcome.toOption.map (·.samples) = some #[0, 0, 127] := by decide +kernel
  cases h : (ofChannels registry settings (.whole 60) (.whole 3) [channel]).outcome with
  | ok rendering =>
    rw [h] at hsamples
    exact ⟨registry, settings, channel, rendering, h, Option.some.inj hsamples,
      (samples_ofChannels h).1⟩
  | error error =>
    rw [h] at hsamples
    cases hsamples

end Rendering
end Chiptune
