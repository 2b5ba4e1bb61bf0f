import Chiptune.Proofs.Rendering.Completion
import Chiptune.Proofs.Rendering.Height

/-!
# What a rendering reports

The errors of a rendering are not only some of those that its notes deserve: there is one entry for
each audible note that has no generator, or whose frequency is refused, in the order of the channels
and of the notes in them, and nothing else (`errors_ofChannels`). Where a note is in the buffer is
settled by all the notes before it, those that are left silent included.

A frequency is refused where the power of two for it is too large. It can also become an infinity,
in the product behind the power, and is then not refused: such a note is played, without a pitch, and
not reported (`errors_ofChannels_soaring`). So the entries are those for all frequencies that are too
high for a float exactly as long as no audible note with a generator has an infinite one.
-/

namespace Chiptune
namespace Rendering

/-! ## The report that is due -/

/-- What is to be said of an audible note, if it has to stay silent. -/
def fault? (tooHigh : Note → Bool) (registry : Registry Generator) (note : Note) : Option Error :=
  match registry.find? note.timbre with
  | none => some (.unknownTimbre note.timbre registry.timbres)
  | some _ => if tooHigh note then some (.octaveOutOfRange note.octave) else none

/-- The entry for the `k`-th note of a channel, if so many places are taken before the first: the note
starts in front of the end of the buffer, takes one sample at least, and has some volume. -/
def entryAt? (tooHigh : Note → Bool) (setup : Setup) (used : Nat) (notes : List Note) (k : Nat) :
    Option Error := do
  let note ← notes[k]?
  let first ← (start setup.tempo setup.settings.sampleRate (notes.take k)).toOption
  let count ← (noteCount setup.tempo setup.settings.sampleRate note).toOption
  if used + first < setup.length ∧ 1 ≤ count ∧ note.volume ≠ 0 then
    fault? tooHigh setup.registry note
  else none

/-- The entries for the notes of a channel, in order. -/
def entries (tooHigh : Note → Bool) (setup : Setup) (used : Nat) (notes : List Note) : List Error :=
  (List.range notes.length).filterMap (entryAt? tooHigh setup used notes)

/-- The entries for the notes of all channels, in order. -/
def dueErrors (tooHigh : Note → Bool) (setup : Setup) (channels : List Channel) : List Error :=
  channels.flatMap fun channel => entries tooHigh setup 0 channel.notes.toList

variable {tooHigh : Note → Bool} {setup : Setup} {used k span : Nat} {notes later : List Note}
variable {head note : Note} {count : Int} {error : Error}

/-- The notes with a place in the buffer are those that start in it and last. -/
theorem audible_iff (htempo : setup.tempo.isNotPositive = false) :
    Audible setup notes used k note ↔
      notes[k]? = some note ∧
        ∃ first count,
          start setup.tempo setup.settings.sampleRate (notes.take k) = .ok first ∧
          noteCount setup.tempo setup.settings.sampleRate note = .ok count ∧
          used + first < setup.length ∧ 1 ≤ count ∧ note.volume ≠ 0 := by
  constructor
  · rintro ⟨hvolume, place, distance, ⟨hnote, ⟨first, hfirst, hplace⟩, count, hcount, hlt⟩, hroom⟩
    exact ⟨hnote, first, count, hfirst, hcount, by omega, by omega, hvolume⟩
  · rintro ⟨hnote, first, count, hfirst, hcount, hroom, hlasts, hvolume⟩
    have hnonneg := start_nonneg htempo setup.settings.rate_positive hfirst
    have hplace : ((first.toNat : Nat) : Int) = first + (0 : Nat) := by omega
    exact ⟨hvolume, first.toNat, 0, ⟨hnote, ⟨first, hfirst, hplace⟩, count, hcount, by omega⟩,
      by omega⟩

theorem entryAt?_eq_some_iff (htempo : setup.tempo.isNotPositive = false) :
    entryAt? tooHigh setup used notes k = some error ↔
      ∃ note, Audible setup notes used k note ∧
        fault? tooHigh setup.registry note = some error := by
  simp only [entryAt?, audible_iff htempo, Option.bind_eq_bind, Option.bind_eq_some_iff,
    toOption_eq_some_iff, Option.ite_none_right_eq_some]
  constructor
  · rintro ⟨note, hnote, first, hfirst, count, hcount, haudible, hfault⟩
    exact ⟨note, ⟨hnote, first, count, hfirst, hcount, haudible⟩, hfault⟩
  · rintro ⟨note, ⟨hnote, first, count, hfirst, hcount, haudible⟩, hfault⟩
    exact ⟨note, hnote, first, hfirst, count, hcount, haudible, hfault⟩

theorem entryAt?_zero (htempo : setup.tempo.isNotPositive = false)
    (hcount : noteCount setup.tempo setup.settings.sampleRate head = .ok count)
    (hspan : span = min count.toNat (setup.length - used)) :
    entryAt? tooHigh setup used (head :: later) 0 =
      if head.volume = 0 ∨ span = 0 then none else fault? tooHigh setup.registry head := by
  refine Option.ext fun error => ?_
  simp only [entryAt?_eq_some_iff htempo, audible_zero hcount]
  split
  · rename_i hsilent
    refine iff_of_false ?_ (by simp)
    rintro ⟨note, ⟨-, hvolume, hpos, hroom⟩, -⟩
    omega
  · rename_i hsounds
    constructor
    · rintro ⟨note, ⟨rfl, -⟩, hfault⟩
      exact hfault
    · intro hfault
      exact ⟨head, ⟨rfl, by omega, by omega, by omega⟩, hfault⟩

theorem entryAt?_succ (htempo : setup.tempo.isNotPositive = false)
    (hcount : noteCount setup.tempo setup.settings.sampleRate head = .ok count)
    (hspan : span = min count.toNat (setup.length - used)) :
    entryAt? tooHigh setup used (head :: later) (k + 1) =
      entryAt? tooHigh setup (used + span) later k := by
  refine Option.ext fun error => ?_
  simp only [entryAt?_eq_some_iff htempo, audible_succ htempo hcount hspan]

/-- **The report, note by note.** -/
theorem entries_cons (htempo : setup.tempo.isNotPositive = false)
    (hcount : noteCount setup.tempo setup.settings.sampleRate head = .ok count)
    (hspan : span = min count.toNat (setup.length - used)) :
    entries tooHigh setup used (head :: later) =
      (if head.volume = 0 ∨ span = 0 then none
        else fault? tooHigh setup.registry head).toList ++
        entries tooHigh setup (used + span) later := by
  unfold entries
  rw [List.length_cons, List.range_succ_eq_map, List.filterMap_cons,
    entryAt?_zero htempo hcount hspan, List.filterMap_map]
  have hlater : entryAt? tooHigh setup used (head :: later) ∘ Nat.succ =
      entryAt? tooHigh setup (used + span) later :=
    funext fun k => entryAt?_succ htempo hcount hspan
  rw [hlater]
  cases (if head.volume = 0 ∨ span = 0 then none else fault? tooHigh setup.registry head) <;> rfl

theorem entries_of_full (htempo : setup.tempo.isNotPositive = false) (h : setup.length ≤ used) :
    entries tooHigh setup used notes = [] := by
  refine List.filterMap_eq_nil_iff.mpr fun k _ => Option.eq_none_iff_forall_ne_some.mpr ?_
  intro error hentry
  obtain ⟨note, haudible, -⟩ := (entryAt?_eq_some_iff htempo).mp hentry
  exact not_audible_of_full h haudible

/-! ## The run through one channel -/

theorem fault?_of_voice {generator : Generator} {frequency : Float}
    (h : voice setup.registry note = .ok (generator, frequency)) :
    fault? Note.isRefused setup.registry note = none := by
  obtain ⟨hfound, hfrequency⟩ := voice_eq_ok_iff.mp h
  have hgiven : note.isRefused = false := by
    unfold Note.isRefused
    rw [hfrequency]
  unfold fault?
  rw [hfound, hgiven]
  rfl

/-- What silences a note is what the report says of it. -/
theorem fault?_of_voice_error {cause : Error} (h : voice setup.registry note = .error cause)
    (hsilencing : isSilencing cause = true) :
    fault? Note.isRefused setup.registry note = some cause := by
  unfold voice Registry.get noteFrequency at h
  unfold fault? Note.isRefused
  cases hfound : setup.registry.find? note.timbre with
  | none =>
    rw [hfound] at h
    cases h
    rfl
  | some generator =>
    rw [hfound] at h
    cases hfrequency : note.frequency with
    | ok frequency =>
      rw [hfrequency] at h
      cases h
    | error reason =>
      rw [hfrequency] at h
      unfold Error.stating at h
      by_cases hwritable : Decimal.isWritable note.octave = true
      · rw [if_pos hwritable] at h
        cases h
        rfl
      · -- An octave that cannot be written does not silence the note: the rendering fails.
        rw [if_neg hwritable] at h
        cases h
        cases hsilencing

variable {channel : String} {before part : Part}

theorem exists_noteCount_of_addNotes (hroom : before.samples.size < setup.length)
    (h : (before.addNotes setup channel (head :: later)).outcome = .ok part) :
    ∃ count, noteCount setup.tempo setup.settings.sampleRate head = .ok count := by
  rw [Part.addNotes, if_neg (by omega)] at h
  obtain ⟨seconds, hseconds, h⟩ := Report.outcome_bind_eq_ok.mp h
  obtain ⟨count, hcount, -⟩ := Report.outcome_bind_eq_ok.mp h
  exact ⟨count, bind_eq_ok_iff.mpr ⟨seconds, hseconds, hcount⟩⟩

/-- **A channel adds the entries that are due.** -/
theorem errors_addNotes (htempo : setup.tempo.isNotPositive = false)
    (h : (before.addNotes setup channel notes).outcome = .ok part) :
    part.errors = before.errors ++
      entries Note.isRefused setup before.samples.size notes := by
  induction notes generalizing before with
  | nil =>
    cases h
    exact (List.append_nil _).symm
  | cons head later ih =>
    rcases Nat.lt_or_ge before.samples.size setup.length with hroom | hfull
    · obtain ⟨count, hcount⟩ := exists_noteCount_of_addNotes hroom h
      rw [outcome_addNotes_cons hroom hcount rfl] at h
      rw [entries_cons htempo hcount rfl]
      generalize min count.toNat (setup.length - before.samples.size) = span at h ⊢
      split
      · rename_i hsilent
        rw [if_pos hsilent] at h
        rw [ih h, Part.size_rest]
        rfl
      · rename_i hsounds
        rw [if_neg hsounds] at h
        cases hvoice : voice setup.registry head with
        | ok found =>
          rw [hvoice] at h
          obtain ⟨value, -, h⟩ := bind_eq_ok_iff.mp h
          rw [fault?_of_voice hvoice, ih h, Part.size_extend]
          rfl
        | error cause =>
          rw [hvoice] at h
          simp only at h
          split at h
          · rename_i hsilencing
            split at h
            · rw [fault?_of_voice_error hvoice hsilencing, ih h, List.append_assoc]
              exact congrArg (fun used => before.errors ++ ([cause] ++
                entries Note.isRefused setup used later)) (Part.size_rest before span)
            · cases h
          · cases h
    · rw [Part.addNotes, if_pos hfull] at h
      cases h
      rw [entries_of_full htempo hfull, List.append_nil]

/-! ## All channels -/

variable {channels : List Channel}

theorem errors_parts {rendered : List Part} (htempo : setup.tempo.isNotPositive = false)
    (h : (parts setup channels).outcome = .ok rendered) :
    rendered.flatMap (·.errors) = dueErrors Note.isRefused setup channels := by
  have hparts := forall₂_parts h
  clear h
  induction hparts with
  | nil => rfl
  | cons hpart _ ih =>
    rw [List.flatMap_cons, ih, errors_addNotes htempo hpart]
    rfl

theorem mem_dueErrors_iff (htempo : setup.tempo.isNotPositive = false) :
    error ∈ dueErrors tooHigh setup channels ↔ ∃ channel ∈ channels, ∃ k note,
      Audible setup channel.notes.toList 0 k note ∧
        fault? tooHigh setup.registry note = some error := by
  simp only [dueErrors, entries, List.mem_flatMap, List.mem_filterMap, List.mem_range,
    entryAt?_eq_some_iff htempo]
  constructor
  · rintro ⟨channel, hchannel, k, -, hentry⟩
    exact ⟨channel, hchannel, k, hentry⟩
  · rintro ⟨channel, hchannel, k, note, haudible, hfault⟩
    have hnote := ((audible_iff htempo).mp haudible).1
    exact ⟨channel, hchannel, k, (List.getElem?_eq_some_iff.mp hnote).1, note, haudible, hfault⟩

theorem exists_fault?_iff {registry : Registry Generator} :
    (∃ error, fault? tooHigh registry note = some error) ↔
      registry.find? note.timbre = none ∨ tooHigh note = true := by
  unfold fault?
  cases registry.find? note.timbre with
  | none => simp
  | some generator => simp

theorem dueErrors_ne_nil_iff (htempo : setup.tempo.isNotPositive = false) :
    dueErrors tooHigh setup channels ≠ [] ↔ ∃ channel ∈ channels, ∃ k note,
      Audible setup channel.notes.toList 0 k note ∧
        (setup.registry.find? note.timbre = none ∨ tooHigh note = true) := by
  simp only [← exists_fault?_iff]
  constructor
  · intro hne
    obtain ⟨error, herror⟩ := List.exists_mem_of_ne_nil _ hne
    obtain ⟨channel, hchannel, k, note, haudible, hfault⟩ := (mem_dueErrors_iff htempo).mp herror
    exact ⟨channel, hchannel, k, note, haudible, error, hfault⟩
  · rintro ⟨channel, hchannel, k, note, haudible, error, hfault⟩
    exact List.ne_nil_of_mem
      ((mem_dueErrors_iff htempo).mpr ⟨channel, hchannel, k, note, haudible, hfault⟩)

/-! ## Two reports -/

section Lists

variable {α β : Type} {f g : α → Option β} {l : List α}

theorem length_filterMap_le_of_eq_none_or (h : ∀ x ∈ l, f x = none ∨ f x = g x) :
    (l.filterMap f).length ≤ (l.filterMap g).length := by
  rw [List.length_filterMap_eq_countP, List.length_filterMap_eq_countP]
  refine List.countP_mono_left fun x hx hf => ?_
  rcases h x hx with hnone | hsame
  · rw [hnone] at hf
    cases hf
  · rwa [← hsame]

/-- Where one function only leaves out what the other gives, it gives as much only by leaving out
nothing. -/
theorem filterMap_eq_iff_of_eq_none_or (h : ∀ x ∈ l, f x = none ∨ f x = g x) :
    l.filterMap f = l.filterMap g ↔ ∀ x ∈ l, f x = g x := by
  refine ⟨fun heq => ?_, List.filterMap_congr⟩
  induction l with
  | nil => exact fun x hx => absurd hx List.not_mem_nil
  | cons x rest ih =>
    rw [List.forall_mem_cons] at h ⊢
    rw [List.filterMap_cons, List.filterMap_cons] at heq
    have hlength := length_filterMap_le_of_eq_none_or h.2
    cases hg : g x with
    | none =>
      have hf : f x = none := h.1.elim id fun hsame => hsame.trans hg
      rw [hf, hg] at heq
      exact ⟨hf, ih h.2 heq⟩
    | some b =>
      rw [hg] at heq
      cases hf : f x with
      | none =>
        rw [hf] at heq
        have hmore : (rest.filterMap f).length = (rest.filterMap g).length + 1 :=
          congrArg List.length heq
        omega
      | some c =>
        rw [hf] at heq
        obtain ⟨hsame, hrest⟩ := List.cons.inj heq
        exact ⟨congrArg some hsame, ih h.2 hrest⟩

end Lists

variable {registry : Registry Generator}

/-- What is refused is past the greatest float as well. -/
theorem fault?_eq_none_or (registry : Registry Generator) (note : Note) :
    fault? Note.isRefused registry note = none ∨
      fault? Note.isRefused registry note = fault? Note.overflows registry note := by
  unfold fault? Note.isRefused Note.overflows
  cases registry.find? note.timbre with
  | none => exact .inr rfl
  | some generator =>
    cases note.frequency with
    | ok frequency => exact .inl rfl
    | error reason => exact .inr rfl

/-- What is said of a note is the same for both, unless it is played at an infinite frequency. -/
theorem fault?_eq_iff :
    fault? Note.isRefused registry note = fault? Note.overflows registry note ↔
      (registry.find? note.timbre ≠ none → note.semitones < 12183 ∨ 12288 ≤ note.semitones) := by
  rw [← Note.isRefused_eq_overflows_iff]
  unfold fault?
  cases registry.find? note.timbre with
  | none => simp
  | some generator => cases note.isRefused <;> cases note.overflows <;> simp

theorem entryAt?_of_audible (htempo : setup.tempo.isNotPositive = false)
    (h : Audible setup notes used k note) :
    entryAt? tooHigh setup used notes k = fault? tooHigh setup.registry note := by
  obtain ⟨hnote, first, count, hfirst, hcount, haudible⟩ := (audible_iff htempo).mp h
  have hfirst' := toOption_eq_some_iff.mpr hfirst
  have hcount' := toOption_eq_some_iff.mpr hcount
  simp only [entryAt?, hnote, hfirst', hcount', Option.bind_eq_bind, Option.bind_some,
    if_pos haudible]

theorem entryAt?_of_not_audible (htempo : setup.tempo.isNotPositive = false)
    (h : ∀ note, ¬ Audible setup notes used k note) : entryAt? tooHigh setup used notes k = none := by
  refine Option.eq_none_iff_forall_ne_some.mpr fun error hentry => ?_
  obtain ⟨note, haudible, -⟩ := (entryAt?_eq_some_iff htempo).mp hentry
  exact h note haudible

theorem entryAt?_eq_none_or (htempo : setup.tempo.isNotPositive = false) (notes : List Note)
    (used k : Nat) :
    entryAt? Note.isRefused setup used notes k = none ∨
      entryAt? Note.isRefused setup used notes k = entryAt? Note.overflows setup used notes k := by
  by_cases haudible : ∃ note, Audible setup notes used k note
  · obtain ⟨note, haudible⟩ := haudible
    rw [entryAt?_of_audible htempo haudible, entryAt?_of_audible htempo haudible]
    exact fault?_eq_none_or _ _
  · exact .inl (entryAt?_of_not_audible htempo (not_exists.mp haudible))

theorem entryAt?_eq_iff (htempo : setup.tempo.isNotPositive = false) :
    entryAt? Note.isRefused setup used notes k = entryAt? Note.overflows setup used notes k ↔
      ∀ note, Audible setup notes used k note → setup.registry.find? note.timbre ≠ none →
        note.semitones < 12183 ∨ 12288 ≤ note.semitones := by
  constructor
  · intro h note haudible
    rw [entryAt?_of_audible htempo haudible, entryAt?_of_audible htempo haudible] at h
    exact fault?_eq_iff.mp h
  · intro h
    by_cases haudible : ∃ note, Audible setup notes used k note
    · obtain ⟨note, haudible⟩ := haudible
      rw [entryAt?_of_audible htempo haudible, entryAt?_of_audible htempo haudible]
      exact fault?_eq_iff.mpr (h note haudible)
    · have hsilent := not_exists.mp haudible
      rw [entryAt?_of_not_audible htempo hsilent, entryAt?_of_not_audible htempo hsilent]

/-- Where the notes of channels stand. -/
def placesIn (channels : List Channel) : List (List Note × Nat) :=
  channels.flatMap fun channel =>
    (List.range channel.notes.toList.length).map (channel.notes.toList, ·)

theorem dueErrors_eq_filterMap :
    dueErrors tooHigh setup channels =
      (placesIn channels).filterMap fun place => entryAt? tooHigh setup 0 place.1 place.2 := by
  rw [placesIn, List.filterMap_flatMap]
  simp only [dueErrors, entries, List.filterMap_map]
  rfl

/-- **The two reports are the same** as long as nothing is played at an infinite frequency. -/
theorem dueErrors_eq_iff (htempo : setup.tempo.isNotPositive = false) :
    dueErrors Note.isRefused setup channels = dueErrors Note.overflows setup channels ↔
      ∀ channel ∈ channels, ∀ k note, Audible setup channel.notes.toList 0 k note →
        setup.registry.find? note.timbre ≠ none →
          note.semitones < 12183 ∨ 12288 ≤ note.semitones := by
  rw [dueErrors_eq_filterMap, dueErrors_eq_filterMap,
    filterMap_eq_iff_of_eq_none_or fun place _ => entryAt?_eq_none_or htempo place.1 0 place.2]
  constructor
  · intro h channel hchannel k note haudible
    have hk := (List.getElem?_eq_some_iff.mp ((audible_iff htempo).mp haudible).1).1
    have hplace : (channel.notes.toList, k) ∈ placesIn channels :=
      List.mem_flatMap.mpr ⟨channel, hchannel, List.mem_map_of_mem (List.mem_range.mpr hk)⟩
    exact (entryAt?_eq_iff htempo).mp (h _ hplace) note haudible
  · intro h place hplace
    obtain ⟨channel, hchannel, hplace⟩ := List.mem_flatMap.mp hplace
    obtain ⟨k, -, rfl⟩ := List.mem_map.mp hplace
    exact (entryAt?_eq_iff htempo).mpr (h channel hchannel k)

/-! ## Renderings -/

variable {settings : Settings} {tempo length : Number} {rendering : Rendering}

/-- **The errors of a rendering** are the entries that are due: for each note that starts in front of
the end of the buffer, takes a sample and has some volume, if it has no generator or its frequency is
refused. The rendering is degraded if there is such a note. They are the entries for all frequencies
past the greatest float exactly if no note is played at an infinite one. -/
theorem errors_ofChannels [Room]
    (h : (ofChannels registry settings tempo length channels).outcome = .ok rendering) :
    ∃ size : Nat, length = .whole size ∧
      let setup : Setup := ⟨tempo, size, channels.length, settings, registry⟩
      rendering.errors = dueErrors Note.isRefused setup channels ∧
      (rendering.degraded = true ↔ ∃ channel ∈ channels, ∃ k note,
        Audible setup channel.notes.toList 0 k note ∧
          (registry.find? note.timbre = none ∨ note.isRefused = true)) ∧
      (rendering.errors = dueErrors Note.overflows setup channels ↔
        ∀ channel ∈ channels, ∀ k note, Audible setup channel.notes.toList 0 k note →
          registry.find? note.timbre ≠ none →
            note.semitones < 12183 ∨ 12288 ≤ note.semitones) := by
  obtain ⟨htempo, size, rendered, hlength, hparts, heq⟩ := ofChannels_eq_ok h
  refine ⟨size, hlength, ?_⟩
  intro setup
  have hdue : rendering.errors = dueErrors Note.isRefused setup channels :=
    (congrArg (·.errors) heq).trans (errors_parts htempo hparts)
  have hdegraded : rendering.degraded = true ↔ dueErrors Note.isRefused setup channels ≠ [] := by
    rw [← hdue, Rendering.degraded, Bool.not_eq_true', List.isEmpty_eq_false_iff]
  refine ⟨hdue, hdegraded.trans (dueErrors_ne_nil_iff htempo), ?_⟩
  rw [← dueErrors_eq_iff htempo, ← hdue]

/-- Two channels in a buffer for five notes: a timbre without a generator, a rest, a tone, an octave
that is too high, a note without volume, and a note that comes too late; then one more timbre. -/
theorem errors_ofChannels_two_channels :
    let settings : Settings := ⟨.whole 8, .whole 0, .whole 0, .whole 0, rfl, rfl, rfl, rfl⟩
    let channels : List Channel := [
      ⟨"a", #[⟨0, 4, 4, 200, "oboe", false, by decide, by decide⟩,
        ⟨0, 4, 4, 0, "sin", true, by decide, fun _ => rfl⟩,
        ⟨0, 4, 4, 200, "square", false, by decide, by decide⟩,
        ⟨0, 4, 2000, 200, "square", false, by decide, by decide⟩,
        ⟨0, 4, 4, 0, "oboe", false, by decide, by decide⟩,
        ⟨0, 4, 4, 200, "oboe", false, by decide, by decide⟩]⟩,
      ⟨"b", #[⟨0, 4, 4, 200, "lute", false, by decide, by decide⟩]⟩]
    ∃ rendering,
      (ofChannels Waveform.all settings (.whole 60) (.whole 40) channels).outcome =
        .ok rendering ∧
      rendering.errors = [.unknownTimbre "oboe" Waveform.all.timbres, .octaveOutOfRange 2000,
        .unknownTimbre "lute" Waveform.all.timbres] ∧ rendering.degraded = true := by
  intro settings channels
  obtain ⟨rendering, hrendering⟩ := isSome_toOption_iff.mp
    (show (ofChannels Waveform.all settings (.whole 60) (.whole 40)
      channels).outcome.toOption.isSome = true by decide +kernel)
  obtain ⟨size, hlength, hdue, -, -⟩ := errors_ofChannels hrendering
  obtain rfl : size = 40 := Int.ofNat.inj (Number.whole.inj hlength).symm
  have herrors : rendering.errors = [.unknownTimbre "oboe" Waveform.all.timbres,
      .octaveOutOfRange 2000, .unknownTimbre "lute" Waveform.all.timbres] := hdue.trans rfl
  refine ⟨rendering, hrendering, herrors, ?_⟩
  rw [Rendering.degraded, herrors]
  rfl

/-- A note in octave 1027 has an infinite frequency. It is played, and nothing is said of it. -/
theorem errors_ofChannels_soaring :
    let settings : Settings := ⟨.whole 8, .whole 0, .whole 0, .whole 0, rfl, rfl, rfl, rfl⟩
    let note : Note := ⟨0, 4, 1027, 200, "square", false, by decide, by decide⟩
    let channels : List Channel := [⟨"", #[note]⟩]
    ∃ rendering,
      (ofChannels Waveform.all settings (.whole 60) (.whole 8) channels).outcome = .ok rendering ∧
      rendering.errors = [] ∧ rendering.degraded = false ∧
      dueErrors Note.overflows ⟨.whole 60, 8, 1, settings, Waveform.all⟩ channels =
        [.octaveOutOfRange 1027] := by
  intro settings note channels
  have hempty : (ofChannels Waveform.all settings (.whole 60) (.whole 8)
      channels).outcome.toOption.map (·.errors.isEmpty) = some true := by decide +kernel
  obtain ⟨rendering, hrendering, hnone⟩ := Option.map_eq_some_iff.mp hempty
  have hcount : noteCount (.whole 60) (.whole 8) note = .ok 8 :=
    toOption_eq_some_iff.mp (by decide +kernel)
  have hoverflows : note.overflows = true := by decide +kernel
  have hdue : entries Note.overflows ⟨.whole 60, 8, 1, settings, Waveform.all⟩ 0 [note] =
      [.octaveOutOfRange 1027] := by
    rw [entries_cons rfl hcount rfl, fault?, hoverflows]
    rfl
  refine ⟨rendering, toOption_eq_some_iff.mp hrendering, List.isEmpty_iff.mp hnone, ?_, ?_⟩
  · rw [Rendering.degraded, hnone]
    rfl
  · exact (List.append_nil _).trans hdue

end Rendering
end Chiptune
