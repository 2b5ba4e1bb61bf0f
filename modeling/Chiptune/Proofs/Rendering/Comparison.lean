import Mathlib.Data.List.Perm.Basic
import Chiptune.Proofs.Rendering.ErrorReport

/-!
# Renderings compared

Two changes that take nothing from what a channel adds. In another order, the channels are mixed to
the same samples, and each brings its errors along (`ofChannels_perm`). In a shorter buffer, they are
mixed to the initial samples, and of the errors only those of notes that start too late go missing
(`ofChannels_shorter`).

Both say that the other rendering comes about at all. For the order that is so because what a channel
adds to the buffer does not depend on what is in it already (`Apart.lean`), so that the sums, which go
round the words, and the errors of a channel can be moved past those of another. For the length it is
the one induction of this file: the two runs go through the same notes, and have come equally far as
long as the shorter buffer is not full (`exists_addNotes_shorter`). The samples need no induction;
what is heard at a place does not depend on the length of the buffer.
-/

namespace Chiptune
namespace Rendering

variable {registry : Registry Generator} {settings : Settings} {tempo length : Number}
variable {channels channels' : List Channel} {rendering rendering' : Rendering}

/-! ## A buffer of a given length -/

section

variable {size : Nat}

theorem exists_parts_of_whole [Room]
    (h : (ofChannels registry settings tempo (.whole size) channels).outcome = .ok rendering) :
    ∃ rendered : List Part,
      (parts ⟨tempo, size, channels.length, settings, registry⟩ channels).outcome = .ok rendered ∧
        rendering = ⟨(mix size rendered).map clip, settings.sampleRate,
          rendered.flatMap (·.errors)⟩ := by
  obtain ⟨-, size', rendered, hsize, hparts, heq⟩ := ofChannels_eq_ok h
  obtain rfl : size = size' := Int.ofNat.inj (Number.whole.inj hsize)
  exact ⟨rendered, hparts, heq⟩

theorem size_samples_of_whole [Room]
    (h : (ofChannels registry settings tempo (.whole size) channels).outcome = .ok rendering) :
    rendering.samples.size = size := by
  obtain ⟨rendered, -, rfl⟩ := exists_parts_of_whole h
  simp [mix]

theorem errors_of_whole [Room]
    (h : (ofChannels registry settings tempo (.whole size) channels).outcome = .ok rendering) :
    rendering.errors =
      dueErrors Note.isRefused ⟨tempo, size, channels.length, settings, registry⟩ channels := by
  obtain ⟨htempo, -⟩ := ofChannels_eq_ok h
  obtain ⟨rendered, hparts, rfl⟩ := exists_parts_of_whole h
  exact errors_parts htempo hparts

end

/-! ## Another order of the channels -/

theorem sumAt_perm {rendered rendered' : List Part} (h : rendered.Perm rendered') (place : Nat) :
    sumAt rendered' place = sumAt rendered place := by
  have hswap : RightCommutative fun (sum : Int32) (part : Part) => sum + part.samples.getD place 0 :=
    ⟨fun sum a b => by
      rw [Int32.add_assoc, Int32.add_comm (a.samples.getD place 0), ← Int32.add_assoc]⟩
  exact (h.foldl_eq 0).symm

/-- Each part follows its channel. -/
theorem parts_perm {setup : Setup} {rendered rendered' : List Part} (hperm : channels.Perm channels')
    (h : (parts setup channels).outcome = .ok rendered)
    (h' : (parts setup channels').outcome = .ok rendered') : rendered.Perm rendered' := by
  refine List.rel_perm_imp ?_ (forall₂_parts h) (forall₂_parts h') hperm
  intro channel part part' hpart hpart'
  exact Except.ok.inj (hpart.symm.trans hpart')

theorem exists_ofChannels_of_perm [Room] (hperm : channels.Perm channels')
    (h : ∃ rendering, (ofChannels registry settings tempo length channels).outcome =
      .ok rendering) :
    ∃ rendering', (ofChannels registry settings tempo length channels').outcome =
      .ok rendering' := by
  obtain ⟨rendering, h⟩ := h
  obtain ⟨htempo, size, -, rfl, -⟩ := ofChannels_eq_ok h
  have hrenders := (exists_ofChannels_iff htempo).mp ⟨rendering, h⟩
  refine (exists_ofChannels_iff htempo).mpr ⟨hrenders.1, fun channel hchannel => ?_⟩
  rw [← hperm.length_eq]
  exact hrenders.2 channel (hperm.mem_iff.mpr hchannel)

/-- **The order of the channels does not matter.** In any other order they are rendered exactly if
they are in this one. The samples are the same, and the errors are those that each channel had, one
channel after the other in its new order. -/
theorem ofChannels_perm [Room] (hperm : channels.Perm channels') :
    ((∃ rendering', (ofChannels registry settings tempo length channels').outcome =
        .ok rendering') ↔
      ∃ rendering, (ofChannels registry settings tempo length channels).outcome = .ok rendering) ∧
    ∀ rendering rendering',
      (ofChannels registry settings tempo length channels).outcome = .ok rendering →
      (ofChannels registry settings tempo length channels').outcome = .ok rendering' →
        rendering'.samples = rendering.samples ∧ ∃ group : Channel → List Error,
          (∃ size : Nat, length = .whole size ∧ ∀ channel ∈ channels, ∃ alone : Mix,
            ((Mix.silence size).addNotes ⟨tempo, size, channels.length, settings, registry⟩
              channel.name 0 channel.notes.toList).outcome = .ok alone ∧
                group channel = alone.errors) ∧
          rendering.errors = channels.flatMap group ∧
          rendering'.errors = channels'.flatMap group := by
  refine ⟨⟨exists_ofChannels_of_perm hperm.symm, exists_ofChannels_of_perm hperm⟩,
    fun rendering rendering' h h' => ?_⟩
  obtain ⟨htempo, size, rendered, rfl, hparts, rfl⟩ := ofChannels_eq_ok h
  obtain ⟨rendered', hparts', rfl⟩ := exists_parts_of_whole h'
  rw [← hperm.length_eq] at hparts'
  have hmix : mix size rendered' = mix size rendered :=
    congrArg Array.ofFn (funext fun i => sumAt_perm (parts_perm hperm hparts hparts') i)
  refine ⟨congrArg (Array.map clip) hmix,
    fun channel => entries Note.isRefused ⟨tempo, size, channels.length, settings, registry⟩ 0
      channel.notes.toList, ⟨size, rfl, fun channel hchannel => ?_⟩, errors_parts htempo hparts,
    errors_parts htempo hparts'⟩
  obtain ⟨part, hpart⟩ := exists_parts_iff.mp ⟨rendered, hparts⟩ channel hchannel
  obtain ⟨alone, halone, herrors⟩ := Mix.exists_addNotes_silence hpart
  refine ⟨alone, halone, ?_⟩
  rw [herrors, errors_addNotes htempo hpart]
  rfl

/-- A tone and a timbre without a generator in one channel, another such timbre in the other. -/
theorem ofChannels_perm_two_channels :
    let settings : Settings := ⟨.whole 8, .whole 0, .whole 0, .whole 0, rfl, rfl, rfl, rfl⟩
    let one : Channel := ⟨"a", #[⟨0, 16, 4, 200, "square", false, by decide, by decide⟩,
      ⟨0, 16, 4, 200, "oboe", false, by decide, by decide⟩]⟩
    let two : Channel := ⟨"b", #[⟨0, 16, 4, 200, "lute", false, by decide, by decide⟩]⟩
    [one, two].Perm [two, one] ∧ ∃ rendering rendering',
      (ofChannels Waveform.all settings (.whole 60) (.whole 4) [one, two]).outcome =
        .ok rendering ∧
      (ofChannels Waveform.all settings (.whole 60) (.whole 4) [two, one]).outcome =
        .ok rendering' ∧
      rendering'.samples = rendering.samples ∧
      rendering.errors = [.unknownTimbre "oboe" Waveform.all.timbres,
        .unknownTimbre "lute" Waveform.all.timbres] ∧
      rendering'.errors = [.unknownTimbre "lute" Waveform.all.timbres,
        .unknownTimbre "oboe" Waveform.all.timbres] := by
  intro settings one two
  have hperm : [one, two].Perm [two, one] := List.Perm.swap two one []
  obtain ⟨hreturns, hsame⟩ :=
    @ofChannels_perm Waveform.all settings (.whole 60) (.whole 4) [one, two] [two, one] _ hperm
  obtain ⟨rendering, h⟩ := isSome_toOption_iff.mp
    (show (ofChannels Waveform.all settings (.whole 60) (.whole 4)
      [one, two]).outcome.toOption.isSome = true by decide +kernel)
  obtain ⟨rendering', h'⟩ := hreturns.mpr ⟨rendering, h⟩
  exact ⟨hperm, rendering, rendering', h, h', (hsame _ _ h h').1,
    (@errors_of_whole _ _ _ _ _ 4 _ h).trans rfl, (@errors_of_whole _ _ _ _ _ 4 _ h').trans rfl⟩

/-! ## A shorter buffer -/

variable {setup : Setup} {channel : String} {notes : List Note} {place k : Nat}

/-- A full buffer is left as it is. -/
theorem exists_addNotes_of_full {before : Part} (h : setup.length ≤ before.samples.size) :
    ∃ part, (before.addNotes setup channel notes).outcome = .ok part := by
  cases notes with
  | nil => exact ⟨before, rfl⟩
  | cons head later =>
    rw [Part.addNotes, if_pos h]
    exact ⟨before, rfl⟩

/-- **What fits into a buffer fits into a shorter one.** -/
theorem exists_addNotes_shorter {before cut : Part} (hle : place ≤ setup.length)
    (hsize : cut.samples.size = before.samples.size)
    (h : ∃ part, (before.addNotes setup channel notes).outcome = .ok part) :
    ∃ part, (cut.addNotes { setup with length := place } channel notes).outcome = .ok part := by
  induction notes generalizing before cut with
  | nil => exact ⟨cut, rfl⟩
  | cons head later ih =>
    rcases Nat.lt_or_ge cut.samples.size place with hroom | hfull
    · obtain ⟨part, h⟩ := h
      obtain ⟨count, hcount⟩ := exists_noteCount_of_addNotes (by omega) h
      have hshorter := @outcome_addNotes_cons { setup with length := place } channel head later _ count
        cut hroom hcount rfl
      rw [outcome_addNotes_cons (by omega) hcount rfl] at h
      rw [hshorter]
      simp only
      generalize hspan : min count.toNat (setup.length - before.samples.size) = span at h
      generalize hspan' : min count.toNat (place - cut.samples.size) = span'
      -- Where the note is cut off the shorter buffer is full, and else both have come equally far.
      have hgo : ∀ next next' : Part, next.samples.size = before.samples.size + span →
          next'.samples.size = cut.samples.size + span' →
          (∃ part, (next.addNotes setup channel later).outcome = .ok part) →
          ∃ part, (next'.addNotes { setup with length := place } channel later).outcome =
            .ok part := by
        intro next next' hnext hnext' hlater
        rcases Nat.lt_or_ge next'.samples.size place with hless | hdone
        · exact ih (by omega) hlater
        · exact exists_addNotes_of_full hdone
      by_cases hsilent : head.volume = 0 ∨ span = 0
      · rw [if_pos hsilent] at h
        rw [if_pos (hsilent.imp_right fun hzero => by omega)]
        exact hgo _ _ (Part.size_rest before span) (Part.size_rest cut span') ⟨part, h⟩
      · rw [if_neg hsilent] at h
        rw [if_neg fun hsilent' => hsilent (hsilent'.imp_right fun hzero => by omega)]
        cases hvoice : voice setup.registry head with
        | ok found =>
          rw [hvoice] at h
          obtain ⟨value, hvalue, h⟩ := bind_eq_ok_iff.mp h
          obtain ⟨part', hpart'⟩ := hgo (before.extend span value) (cut.extend span' value)
            (Part.size_extend before span value) (Part.size_extend cut span' value) ⟨part, h⟩
          exact ⟨part', bind_eq_ok_iff.mpr ⟨value, hvalue, hpart'⟩⟩
        | error cause =>
          rw [hvoice] at h
          simp only at h ⊢
          split at h
          · rename_i hsilencing
            rw [if_pos hsilencing]
            split at h
            · rename_i hwritable
              rw [if_pos hwritable]
              exact hgo { before.rest span with errors := before.errors ++ [cause] }
                { cut.rest span' with errors := cut.errors ++ [cause] } (Part.size_rest before span)
                (Part.size_rest cut span') ⟨part, h⟩
            · cases h
          · cases h
    · exact exists_addNotes_of_full hfull

/-! ## The notes that start in it -/

/-- Whether the `k`-th of some notes starts in front of a place. -/
def startsBefore (tempo rate : Number) (place : Nat) (notes : List Note) (k : Nat) : Bool :=
  match start tempo rate (notes.take k) with
  | .ok first => first < place
  | .error _ => false

/-- The entries for the notes of a channel that start in front of a place. -/
def entriesBefore (tooHigh : Note → Bool) (setup : Setup) (place : Nat) (notes : List Note) :
    List Error :=
  ((List.range notes.length).filter
    (startsBefore setup.tempo setup.settings.sampleRate place notes)).filterMap
      (entryAt? tooHigh setup 0 notes)

theorem startsBefore_eq_true_iff {tempo rate : Number} :
    startsBefore tempo rate place notes k = true ↔
      ∃ first, start tempo rate (notes.take k) = .ok first ∧ first < place := by
  unfold startsBefore
  cases start tempo rate (notes.take k) <;> simp

/-- A note starts no later than the next. -/
theorem startsBefore_of_succ {tempo rate : Number} (htempo : tempo.isNotPositive = false)
    (hrate : rate.isNotPositive = false)
    (h : startsBefore tempo rate place notes (k + 1) = true) :
    startsBefore tempo rate place notes k = true := by
  obtain ⟨total, htotal, hlt⟩ := startsBefore_eq_true_iff.mp h
  rw [List.take_add_one, start_append] at htotal
  obtain ⟨first, rest, hfirst, hrest, rfl⟩ := htotal
  have hnonneg := start_nonneg htempo hrate hrest
  exact startsBefore_eq_true_iff.mpr ⟨first, hfirst, by omega⟩

theorem filter_range_isPrefix {p : Nat → Bool} (h : ∀ k, p (k + 1) = true → p k = true) (n : Nat) :
    (List.range n).filter p <+: List.range n := by
  induction n with
  | zero => exact List.prefix_refl _
  | succ n ih =>
    rw [List.range_succ, List.filter_append]
    by_cases hn : p n = true
    · have hall : ∀ k ∈ List.range n, p k = true := by
        intro k hk
        exact Nat.decreasingInduction (fun j _ hj => h j hj) hn (List.mem_range.mp hk).le
      rw [List.filter_eq_self.mpr hall]
      simp [hn]
    · have hnone : [n].filter p = [] := by simp [hn]
      rw [hnone, List.append_nil]
      exact ih.trans (List.prefix_append _ _)

theorem entriesBefore_isPrefix {tooHigh : Note → Bool} (htempo : setup.tempo.isNotPositive = false) :
    entriesBefore tooHigh setup place notes <+: entries tooHigh setup 0 notes :=
  (filter_range_isPrefix (fun _ => startsBefore_of_succ htempo setup.settings.rate_positive)
    notes.length).filterMap _

/-- What is due in a shorter buffer is what is due in the longer one, of a note that starts in it. -/
theorem entryAt?_shorter {tooHigh : Note → Bool} (hle : place ≤ setup.length) :
    entryAt? tooHigh { setup with length := place } 0 notes k =
      if startsBefore setup.tempo setup.settings.sampleRate place notes k = true then
        entryAt? tooHigh setup 0 notes k
      else none := by
  refine Option.ext fun error => ?_
  simp only [entryAt?, Option.ite_none_right_eq_some, startsBefore_eq_true_iff, Option.bind_eq_bind,
    Option.bind_eq_some_iff, toOption_eq_some_iff]
  constructor
  · rintro ⟨note, hnote, first, hfirst, count, hcount, ⟨hplace, hlasts⟩, hfault⟩
    exact ⟨⟨first, hfirst, by omega⟩, note, hnote, first, hfirst, count, hcount,
      ⟨by omega, hlasts⟩, hfault⟩
  · rintro ⟨⟨first, hfirst, hplace⟩, note, hnote, first', hfirst', count, hcount, ⟨-, hlasts⟩,
      hfault⟩
    obtain rfl := Except.ok.inj (hfirst.symm.trans hfirst')
    exact ⟨note, hnote, first, hfirst, count, hcount, ⟨by omega, hlasts⟩, hfault⟩

theorem entries_shorter {tooHigh : Note → Bool} (hle : place ≤ setup.length) :
    entries tooHigh { setup with length := place } 0 notes =
      entriesBefore tooHigh setup place notes := by
  unfold entries entriesBefore
  rw [List.filterMap_filter]
  exact List.filterMap_congr fun k _ => entryAt?_shorter hle

/-- What is heard at a place is the same in both buffers. -/
theorem sample_eq_of_inNormalForm {length length' : Number} {i : Nat}
    (h : InNormalForm registry settings tempo length channels rendering)
    (h' : InNormalForm registry settings tempo length' channels rendering')
    (hi : i < rendering.samples.size) (hi' : i < rendering'.samples.size) :
    rendering'.samples[i] = rendering.samples[i] := by
  obtain ⟨_, _, _, _, _, hsamples⟩ := h
  obtain ⟨_, _, _, _, _, hsamples'⟩ := h'
  obtain ⟨values, hvalues, -, hsample⟩ := hsamples i hi
  obtain ⟨values', hvalues', -, hsample'⟩ := hsamples' i hi'
  have hsame : values' = values := by
    refine values_eq_of_forall₂ hvalues hvalues' rfl fun j channel channel' value value' hj hj' => ?_
    obtain rfl : channel = channel' := Option.some.inj (hj.symm.trans hj')
    exact fun hheard hheard' => hheard'.unique hheard
  rw [hsame] at hsample'
  exact Int8.toInt_inj.mp (hsample'.trans hsample.symm)

/-- **A shorter buffer cuts a rendering off.** Where channels are rendered into a buffer, they are
rendered into any shorter one. It has the initial samples, and of the errors of each channel the
initial ones, for the notes that start in it. -/
theorem ofChannels_shorter [Room] {shorter longer : Nat} (hle : shorter ≤ longer)
    (h : (ofChannels registry settings tempo (.whole longer) channels).outcome = .ok rendering) :
    let setup : Setup := ⟨tempo, longer, channels.length, settings, registry⟩
    ∃ cut, (ofChannels registry settings tempo (.whole shorter) channels).outcome = .ok cut ∧
      cut.samples = rendering.samples.take shorter ∧
      rendering.errors =
        channels.flatMap (fun channel => entries Note.isRefused setup 0 channel.notes.toList) ∧
      cut.errors = channels.flatMap
        (fun channel => entriesBefore Note.isRefused setup shorter channel.notes.toList) ∧
      ∀ channel ∈ channels, entriesBefore Note.isRefused setup shorter channel.notes.toList <+:
        entries Note.isRefused setup 0 channel.notes.toList := by
  intro setup
  obtain ⟨htempo, -⟩ := ofChannels_eq_ok h
  obtain ⟨hroom, hchannels⟩ := (exists_ofChannels_iff htempo).mp ⟨rendering, h⟩
  obtain ⟨cut, hcut⟩ := (@exists_ofChannels_iff _ _ _ _ _ shorter htempo).mpr
    ⟨by omega, fun channel hchannel => exists_addNotes_shorter hle rfl (hchannels channel hchannel)⟩
  have hsize := size_samples_of_whole h
  have hsize' := size_samples_of_whole hcut
  refine ⟨cut, hcut, ?_, errors_of_whole h, ?_, fun channel _ => entriesBefore_isPrefix htempo⟩
  · refine Array.ext (by simp; omega) fun i hi hi' => ?_
    rw [Array.getElem_extract]
    simp only [Nat.zero_add]
    exact sample_eq_of_inNormalForm (inNormalForm_ofChannels h) (inNormalForm_ofChannels hcut)
      (by omega) hi
  · refine (errors_of_whole hcut).trans (List.flatMap_congr fun channel _ => ?_)
    exact @entries_shorter setup channel.notes.toList shorter Note.isRefused hle

/-- A tone of two samples that is cut off in its middle, behind a timbre without a generator, and
one more such timbre that comes too late. -/
theorem ofChannels_shorter_within_a_note :
    let settings : Settings := ⟨.whole 8, .whole 0, .whole 1, .whole 0, rfl, rfl, rfl, rfl⟩
    let channels : List Channel := [⟨"a", #[⟨0, 16, 4, 200, "oboe", false, by decide, by decide⟩,
      ⟨0, 16, 4, 200, "square", false, by decide, by decide⟩,
      ⟨0, 16, 4, 200, "lute", false, by decide, by decide⟩]⟩]
    3 ≤ 6 ∧ ∃ rendering cut,
      (ofChannels Waveform.all settings (.whole 60) (.whole 6) channels).outcome =
        .ok rendering ∧
      (ofChannels Waveform.all settings (.whole 60) (.whole 3) channels).outcome = .ok cut ∧
      cut.samples = rendering.samples.take 3 ∧
      rendering.errors = [.unknownTimbre "oboe" Waveform.all.timbres,
        .unknownTimbre "lute" Waveform.all.timbres] ∧
      cut.errors = [.unknownTimbre "oboe" Waveform.all.timbres] := by
  intro settings channels
  obtain ⟨rendering, h⟩ := isSome_toOption_iff.mp
    (show (ofChannels Waveform.all settings (.whole 60) (.whole 6)
      channels).outcome.toOption.isSome = true by decide +kernel)
  obtain ⟨cut, hcut, hsamples, herrors, herrors', -⟩ :=
    @ofChannels_shorter _ _ _ _ _ _ 3 6 (by decide) h
  exact ⟨by decide, rendering, cut, h, hcut, hsamples, herrors.trans rfl, herrors'.trans rfl⟩

end Rendering
end Chiptune
