import Mathlib.Data.List.Forall2
import Chiptune.Proofs.Rendering.NormalForm

/-!
# When a rendering comes about

A rendering is refused where its buffer cannot be laid out, and where a note that is to be heard
cannot be computed. Which notes these are can be said from the windows alone: the notes with a volume
that have a place in the buffer (`Audible`). A note without a voice does not stand in the way, as long
as the report of it can be written (`Passes`).

So the run through a channel comes to its end exactly where all audible notes of it pass
(`exists_addNotes_iff`), and what has no voice is then among the errors (`mem_errors_addNotes`).
-/

namespace Chiptune
namespace Rendering

/-! ## Audible notes -/

/-- A note of some volume that has a place in the buffer, if so many places are taken before the
first of the notes. -/
def Audible (setup : Setup) (notes : List Note) (used k : Nat) (note : Note) : Prop :=
  note.volume ≠ 0 ∧ ∃ place distance,
    InWindow setup.tempo setup.settings.sampleRate notes k note place distance ∧
      used + place < setup.length

/-- A note does not stop a rendering: what has a voice can be computed, and what has none can be
reported. -/
structure Passes (setup : Setup) (channel : String) (note : Note) : Prop where
  voiced : ∀ generator frequency, voice setup.registry note = .ok (generator, frequency) →
    ∃ count value, noteCount setup.tempo setup.settings.sampleRate note = .ok count ∧
      sound setup note count generator frequency = .ok value
  silenced : ∀ cause, voice setup.registry note = .error cause →
    isSilencing cause = true ∧ (Event.noteSilenced channel cause note).isWritable = true

variable {setup : Setup} {channel : String} {head note : Note} {later : List Note}
variable {used k span : Nat} {count : Int}

theorem not_audible_nil : ¬ Audible setup [] used k note := by
  rintro ⟨-, place, distance, hin, -⟩
  exact inWindow_nil hin

theorem not_audible_of_full {notes : List Note} (h : setup.length ≤ used) :
    ¬ Audible setup notes used k note := by
  rintro ⟨-, place, distance, -, hroom⟩
  omega

theorem audible_zero
    (hcount : noteCount setup.tempo setup.settings.sampleRate head = .ok count) :
    Audible setup (head :: later) used 0 note ↔
      note = head ∧ head.volume ≠ 0 ∧ 0 < count ∧ used < setup.length := by
  constructor
  · rintro ⟨hvolume, place, distance, hin, hroom⟩
    obtain ⟨rfl, rfl, hlt⟩ := (inWindow_zero hcount).mp hin
    exact ⟨rfl, hvolume, by omega, by omega⟩
  · rintro ⟨rfl, hvolume, hpos, hroom⟩
    exact ⟨hvolume, 0, 0, (inWindow_zero hcount).mpr ⟨rfl, rfl, hpos⟩, hroom⟩

theorem audible_succ (htempo : setup.tempo.isNotPositive = false)
    (hcount : noteCount setup.tempo setup.settings.sampleRate head = .ok count)
    (hspan : span = min count.toNat (setup.length - used)) :
    Audible setup (head :: later) used (k + 1) note ↔ Audible setup later (used + span) k note := by
  have hnonneg := noteCount_nonneg htempo setup.settings.rate_positive hcount
  have hsucc := fun place distance =>
    @inWindow_succ setup.tempo setup.settings.sampleRate head note later k place distance count
      htempo setup.settings.rate_positive hcount
  refine and_congr_right fun _ => ⟨?_, ?_⟩
  · rintro ⟨place, distance, hin, hroom⟩
    obtain ⟨hle, hin⟩ := (hsucc place distance).mp hin
    exact ⟨place - count.toNat, distance, hin, by omega⟩
  · -- Where the note is cut off the buffer is full, and nothing behind it is audible.
    rintro ⟨place, distance, hin, hroom⟩
    refine ⟨place + count.toNat, distance, (hsucc _ _).mpr ⟨by omega, ?_⟩, by omega⟩
    rwa [Nat.add_sub_cancel]

/-- What is asked of the audible notes is asked of the first one and of those behind it. -/
theorem forall_audible_cons {P : Note → Prop} (htempo : setup.tempo.isNotPositive = false)
    (hcount : noteCount setup.tempo setup.settings.sampleRate head = .ok count)
    (hspan : span = min count.toNat (setup.length - used)) :
    (∀ k note, Audible setup (head :: later) used k note → P note) ↔
      (head.volume ≠ 0 → 0 < span → P head) ∧
        ∀ k note, Audible setup later (used + span) k note → P note := by
  constructor
  · refine fun h => ⟨fun hvolume hpos => h 0 head ?_, fun k note hlater => h (k + 1) note ?_⟩
    · exact (audible_zero hcount).mpr ⟨rfl, hvolume, by omega, by omega⟩
    · exact (audible_succ htempo hcount hspan).mpr hlater
  · rintro ⟨hhead, hlater⟩ k note haudible
    cases k with
    | zero =>
      obtain ⟨rfl, hvolume, hpos, hroom⟩ := (audible_zero hcount).mp haudible
      exact hhead hvolume (by omega)
    | succ k => exact hlater k note ((audible_succ htempo hcount hspan).mp haudible)

/-! ## One note -/

theorem passes_iff_of_voice {generator : Generator} {frequency : Float}
    (hcount : noteCount setup.tempo setup.settings.sampleRate note = .ok count)
    (hvoice : voice setup.registry note = .ok (generator, frequency)) :
    Passes setup channel note ↔
      ∃ value, sound setup note count generator frequency = .ok value := by
  constructor
  · intro h
    obtain ⟨count', value, hcount', hvalue⟩ := h.voiced generator frequency hvoice
    obtain rfl : count = count' := Except.ok.inj (hcount.symm.trans hcount')
    exact ⟨value, hvalue⟩
  · rintro ⟨value, hvalue⟩
    refine ⟨fun generator' frequency' hvoice' => ?_, fun cause hcause => ?_⟩
    · rw [hvoice] at hvoice'
      cases hvoice'
      exact ⟨count, value, hcount, hvalue⟩
    · rw [hvoice] at hcause
      cases hcause

theorem passes_iff_of_voice_error {cause : Error}
    (hvoice : voice setup.registry note = .error cause) :
    Passes setup channel note ↔
      isSilencing cause = true ∧ (Event.noteSilenced channel cause note).isWritable = true := by
  constructor
  · exact fun h => h.silenced cause hvoice
  · intro hcause
    refine ⟨fun generator frequency hfound => ?_, fun cause' hcause' => ?_⟩
    · rw [hvoice] at hfound
      cases hfound
    · rw [hvoice] at hcause'
      cases hcause'
      exact hcause

variable {before part : Part}

/-- **The step.** What becomes of a note, where there is room for one. -/
theorem outcome_addNotes_cons (hroom : before.samples.size < setup.length)
    (hcount : noteCount setup.tempo setup.settings.sampleRate head = .ok count)
    (hspan : span = min count.toNat (setup.length - before.samples.size)) :
    (before.addNotes setup channel (head :: later)).outcome =
      if head.volume = 0 ∨ span = 0 then ((before.rest span).addNotes setup channel later).outcome
      else
        match voice setup.registry head with
        | .ok (generator, frequency) => sound setup head count generator frequency >>= fun value =>
            ((before.extend span value).addNotes setup channel later).outcome
        | .error cause =>
          if isSilencing cause = true then
            if (Event.noteSilenced channel cause head).isWritable = true then
              ({ before.rest span with errors := before.errors ++ [cause] }.addNotes
                setup channel later).outcome
            else .error .tooManyDigits
          else .error cause := by
  obtain ⟨seconds, hseconds, hsamples⟩ := bind_eq_ok_iff.mp hcount
  rw [Part.addNotes, if_neg (by omega), Report.outcome_liftM_bind hseconds,
    Report.outcome_liftM_bind hsamples]
  simp only [← hspan]
  split
  · rfl
  · cases voice setup.registry head with
    | ok found => exact (Report.outcome_bind _ _).trans rfl
    | error cause =>
      simp only
      split
      · rw [Report.outcome_bind, Report.outcome_tell]
        split <;> rfl
      · rfl

/-! ## The run through one channel -/

/-- **A channel is rendered exactly where its audible notes pass.** -/
theorem exists_addNotes_iff {notes : List Note} (htempo : setup.tempo.isNotPositive = false)
    (hcounts : ∀ note ∈ notes, ∃ count, noteCount setup.tempo setup.settings.sampleRate note =
      .ok count) :
    (∃ part, (before.addNotes setup channel notes).outcome = .ok part) ↔
      ∀ k note, Audible setup notes before.samples.size k note → Passes setup channel note := by
  induction notes generalizing before with
  | nil => exact iff_of_true ⟨before, rfl⟩ fun k note h => absurd h not_audible_nil
  | cons head later ih =>
    obtain ⟨⟨count, hcount⟩, hlater⟩ := List.forall_mem_cons.mp hcounts
    rcases Nat.lt_or_ge before.samples.size setup.length with hroom | hfull
    · have hstep := @outcome_addNotes_cons setup channel head later _ count before hroom hcount rfl
      rw [forall_audible_cons htempo hcount rfl, hstep]
      generalize hspan : min count.toNat (setup.length - before.samples.size) = span
      split
      · rename_i hsilent
        rw [ih hlater, Part.size_rest, and_iff_right]
        intro hvolume hpos
        rcases hsilent with hzero | hzero
        · exact absurd hzero hvolume
        · omega
      · rename_i hsounds
        obtain ⟨hvolume, hpos⟩ := not_or.mp hsounds
        rw [imp_iff_right hvolume, imp_iff_right (Nat.pos_of_ne_zero hpos)]
        cases hvoice : voice setup.registry head with
        | ok found =>
          obtain ⟨generator, frequency⟩ := found
          have hextended := fun value => @ih (before.extend span value) hlater
          simp only [Part.size_extend] at hextended
          rw [passes_iff_of_voice hcount hvoice]
          simp only [bind_eq_ok_iff]
          constructor
          · rintro ⟨part, value, hsound, hpart⟩
            exact ⟨⟨value, hsound⟩, (hextended value).mp ⟨part, hpart⟩⟩
          · rintro ⟨⟨value, hsound⟩, hrest⟩
            obtain ⟨part, hpart⟩ := (hextended value).mpr hrest
            exact ⟨part, value, hsound, hpart⟩
        | error cause =>
          simp only
          rw [passes_iff_of_voice_error hvoice]
          split
          · rename_i hsilencing
            split
            · rename_i hwritable
              have hsize : ({ before.rest span with errors := before.errors ++ [cause] } :
                  Part).samples.size = before.samples.size + span := Part.size_rest before span
              rw [ih hlater, hsize, and_iff_right ⟨hsilencing, hwritable⟩]
            · rename_i hwritable
              exact iff_of_false (by simp) fun h => hwritable h.1.2
          · rename_i hsilencing
            exact iff_of_false (by simp) fun h => hsilencing h.1.1
    · have hdone : (before.addNotes setup channel (head :: later)).outcome = .ok before := by
        rw [Part.addNotes, if_pos hfull]
        rfl
      exact iff_of_true ⟨before, hdone⟩ fun k note h => absurd h (not_audible_of_full hfull)

theorem errors_subset_addNotes {notes : List Note}
    (h : (before.addNotes setup channel notes).outcome = .ok part) :
    before.errors ⊆ part.errors := by
  induction notes generalizing before with
  | nil =>
    cases h
    exact List.Subset.refl _
  | cons head later ih =>
    unfold Part.addNotes at h
    split at h
    · cases h
      exact List.Subset.refl _
    · obtain ⟨seconds, hseconds, h⟩ := Report.outcome_bind_eq_ok.mp h
      obtain ⟨count, hcount, h⟩ := Report.outcome_bind_eq_ok.mp h
      simp only at h
      split at h
      · have hlater := ih h
        exact hlater
      · split at h
        · obtain ⟨value, hvalue, h⟩ := Report.outcome_bind_eq_ok.mp h
          have hlater := ih h
          exact hlater
        · split at h
          · obtain ⟨-, -, h⟩ := Report.outcome_bind_eq_ok.mp h
            exact List.Subset.trans (List.subset_append_left _ _) (ih h)
          · cases h

/-- **What has no voice is reported.** -/
theorem mem_errors_addNotes {notes : List Note} {cause : Error}
    (htempo : setup.tempo.isNotPositive = false)
    (h : (before.addNotes setup channel notes).outcome = .ok part)
    (haudible : Audible setup notes before.samples.size k note)
    (hvoice : voice setup.registry note = .error cause) : cause ∈ part.errors := by
  induction notes generalizing before k with
  | nil => exact absurd haudible not_audible_nil
  | cons head later ih =>
    rcases Nat.lt_or_ge before.samples.size setup.length with hroom | hfull
    · obtain ⟨count, hcount⟩ : ∃ count,
          noteCount setup.tempo setup.settings.sampleRate head = .ok count := by
        obtain ⟨-, place, distance, hin, -⟩ := haudible
        exact hin.exists_noteCount_head
      have hstep := @outcome_addNotes_cons setup channel head later _ count before hroom hcount rfl
      rw [hstep] at h
      generalize hspan : min count.toNat (setup.length - before.samples.size) = span at *
      cases k with
      | zero =>
        obtain ⟨rfl, hvolume, hpos, -⟩ := (audible_zero hcount).mp haudible
        rw [if_neg (by omega), hvoice] at h
        simp only at h
        split at h
        · split at h
          · exact errors_subset_addNotes h (List.mem_append_right _ List.mem_cons_self)
          · cases h
        · cases h
      | succ k =>
        rw [audible_succ htempo hcount hspan.symm] at haudible
        split at h
        · exact ih h (by rwa [Part.size_rest])
        · split at h
          · obtain ⟨value, -, h⟩ := bind_eq_ok_iff.mp h
            exact ih h (by rwa [Part.size_extend])
          · split at h
            · split at h
              · rw [← Part.size_rest] at haudible
                exact ih h haudible
              · cases h
            · cases h
    · exact absurd haudible (not_audible_of_full hfull)

/-! ## The whole piece -/

theorem exists_parts_iff {channels : List Channel} :
    (∃ rendered, (parts setup channels).outcome = .ok rendered) ↔
      ∀ channel ∈ channels, ∃ part,
        (Part.addNotes setup channel.name ⟨#[], []⟩ channel.notes.toList).outcome = .ok part := by
  induction channels with
  | nil => exact iff_of_true ⟨[], rfl⟩ fun channel h => absurd h List.not_mem_nil
  | cons channel rest ih =>
    rw [List.forall_mem_cons, ← ih]
    constructor
    · rintro ⟨rendered, h⟩
      obtain ⟨part, hpart, h⟩ := Report.outcome_bind_eq_ok.mp h
      obtain ⟨others, hothers, -⟩ := Report.outcome_bind_eq_ok.mp h
      exact ⟨⟨part, hpart⟩, others, hothers⟩
    · rintro ⟨⟨part, hpart⟩, others, hothers⟩
      exact ⟨part :: others, Report.outcome_bind_eq_ok.mpr
        ⟨part, hpart, Report.outcome_bind_eq_ok.mpr ⟨others, hothers, rfl⟩⟩⟩

theorem placesOf_eq_ok_iff [Room] {cell : Cell} {count : Int} {size : Nat} :
    placesOf cell count = .ok size ↔
      0 ≤ count ∧ count < 0x8000000000000000 ∧ cell.size * count < 0x8000000000000000 ∧
        cell.size * count < Room.limit ∧ size = count.toNat := by
  unfold placesOf
  simp only
  repeat' split
  all_goals simp only [reduceCtorEq, Except.ok.injEq, false_iff]
  all_goals omega

theorem exists_bufferSize_iff [Room] {length : Nat} :
    (∃ size, bufferSize (.whole length) = .ok size) ↔ 4 * length < Room.limit := by
  have hlimit : Room.limit ≤ 2 ^ 55 := Room.limit_le
  have hcell : Cell.sample.size = 4 := rfl
  constructor
  · rintro ⟨size, h⟩
    obtain ⟨-, -, -, hroom, -⟩ :=
      placesOf_eq_ok_iff.mp (show placesOf .sample length = .ok size from h)
    rw [hcell] at hroom
    omega
  · intro hroom
    refine ⟨length, placesOf_eq_ok_iff.mpr ?_⟩
    rw [hcell]
    omega

variable {registry : Registry Generator} {settings : Settings} {tempo : Number}
variable {channels : List Channel} {rendering : Rendering}

/-- A rendering is its channels, mixed. -/
theorem outcome_ofChannels [Room] {length : Number} {size : Nat}
    (htempo : tempo.isNotPositive = false) (hsize : bufferSize length = .ok size) :
    (ofChannels registry settings tempo length channels).outcome =
      ((Mix.silence size).addChannels ⟨tempo, size, channels.length, settings, registry⟩
        channels).outcome.map fun mixed =>
          ⟨mixed.sums.map clip, settings.sampleRate, mixed.errors⟩ := by
  have hpositive : ¬ tempo.isNotPositive = true := by rw [htempo]; exact Bool.false_ne_true
  unfold ofChannels
  rw [if_neg hpositive, Report.outcome_liftM_bind hsize, Report.outcome_bind]
  simp only
  cases ((Mix.silence size).addChannels ⟨tempo, size, channels.length, settings, registry⟩
    channels).outcome with
  | error error => rfl
  | ok mixed =>
    show (ite _ _ _ : Report Rendering).outcome = .ok _
    split
    · exact Report.outcome_tell_bind rfl _
    · rfl

theorem exists_ofChannels_iff [Room] {length : Nat} (htempo : tempo.isNotPositive = false) :
    (∃ rendering, (ofChannels registry settings tempo (.whole length) channels).outcome =
        .ok rendering) ↔
      4 * length < Room.limit ∧ ∀ channel ∈ channels, ∃ part, (Part.addNotes
        ⟨tempo, length, channels.length, settings, registry⟩ channel.name ⟨#[], []⟩
          channel.notes.toList).outcome = .ok part := by
  rw [← exists_parts_iff, ← exists_bufferSize_iff]
  constructor
  · rintro ⟨rendering, h⟩
    obtain ⟨-, size, rendered, hlength, hrendered, -⟩ := ofChannels_eq_ok h
    have hsize : (length : Int) = size := Number.whole.inj hlength
    obtain rfl : length = size := by omega
    refine ⟨?_, rendered, hrendered⟩
    unfold ofChannels at h
    split at h
    · cases h
    · obtain ⟨size, hsize, -⟩ := Report.outcome_bind_eq_ok.mp h
      exact ⟨size, hsize⟩
  · rintro ⟨⟨size, hsize⟩, rendered, hrendered⟩
    have hwhole : (length : Int) = size := Number.whole.inj (bufferSize_eq_ok hsize)
    obtain rfl : length = size := by omega
    rw [outcome_ofChannels htempo hsize,
      Mix.addChannels_silence_eq_ok_iff.mpr ⟨rendered, hrendered, rfl⟩]
    exact ⟨_, rfl⟩

/-- What has no voice is among the errors of a rendering, wherever it is to be heard. -/
theorem mem_errors_ofChannels [Room] {length : Nat} {channel : Channel} {note : Note} {k : Nat}
    {cause : Error}
    (h : (ofChannels registry settings tempo (.whole length) channels).outcome = .ok rendering)
    (hchannel : channel ∈ channels)
    (haudible : Audible ⟨tempo, length, channels.length, settings, registry⟩
      channel.notes.toList 0 k note)
    (hvoice : voice registry note = .error cause) : cause ∈ rendering.errors := by
  obtain ⟨htempo, size, rendered, hlength, hparts, rfl⟩ := ofChannels_eq_ok h
  have hsize : (length : Int) = size := Number.whole.inj hlength
  obtain rfl : length = size := by omega
  obtain ⟨place, hplace, rfl⟩ := List.mem_iff_getElem.mp hchannel
  obtain ⟨hlength, hget⟩ := List.forall₂_iff_get.mp (forall₂_parts hparts)
  have hpart := hget place hplace (by omega)
  exact List.mem_flatMap.mpr
    ⟨_, List.get_mem _ _, mem_errors_addNotes htempo hpart haudible hvoice⟩

end Rendering
end Chiptune
