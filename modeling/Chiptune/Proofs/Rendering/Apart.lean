import Chiptune.Rendering.Mix

/-!
# Channels apart

A rendering has one buffer and one list of errors. Every channel is added to what the channels before
it have left there, and its notes to what its own earlier notes have left. Here each channel gets a
row of samples of its own instead, which grows as its notes are played (`Part.addNotes`); the rows are
then added up place by place (`mix`), and their errors joined.

It comes to the same, in every run, with the same events and the same failures
(`Mix.addChannels_silence`). What is proved of a rendering is proved of the channels apart, and says
something about the one buffer by this equation. The lemma behind it is `Mix.addNotes_addPart`: what a
note adds does not depend on what is in the buffer already, and goes where its row has come to.
-/

namespace Chiptune

/-! ## One channel in a row of its own -/

/-- A channel in samples, as far as it has got, and why notes of it are silent. -/
structure Part where
  samples : Array Int32
  errors : List Error

namespace Part

open Rendering

/-- Adds samples at the end. -/
def extend (part : Part) (span : Nat) (value : Nat → Int32) : Part :=
  { part with samples := part.samples ++ Array.ofFn fun i : Fin span => value i }

/-- Adds silence at the end. -/
def rest (part : Part) (span : Nat) : Part :=
  { part with samples := part.samples ++ Array.replicate span 0 }

/-- Renders the notes of a channel behind what it already has, up to the end of the buffer. -/
def addNotes (setup : Setup) (channel : String) (part : Part) : List Note → Report Part
  | [] => pure part
  | note :: later =>
    if setup.length ≤ part.samples.size then pure part
    else do
      let seconds ← note.seconds setup.tempo
      let count ← noteSamples (.real seconds) setup.settings.sampleRate
      let span := min count.toNat (setup.length - part.samples.size)
      if note.volume = 0 ∨ span = 0 then
        (part.rest span).addNotes setup channel later
      else
        match voice setup.registry note with
        | .ok (generator, frequency) =>
          let value ← sound setup note count generator frequency
          (part.extend span value).addNotes setup channel later
        | .error cause =>
          if isSilencing cause then
            Report.tell (.noteSilenced channel cause note)
            let silent := part.rest span
            { silent with errors := silent.errors ++ [cause] }.addNotes setup channel later
          else
            throw cause

theorem size_rest (part : Part) (span : Nat) :
    (part.rest span).samples.size = part.samples.size + span := by
  simp [rest]

theorem size_extend (part : Part) (span : Nat) (value : Nat → Int32) :
    (part.extend span value).samples.size = part.samples.size + span := by
  simp [extend]

theorem getD_extend (part : Part) (span place : Nat) (value : Nat → Int32) :
    (part.extend span value).samples.getD place 0 =
      if place < part.samples.size then part.samples.getD place 0
      else if place < part.samples.size + span then value (place - part.samples.size) else 0 := by
  unfold extend
  rw [Array.getD_eq_getD_getElem?, Array.getElem?_append]
  by_cases hold : place < part.samples.size
  · rw [if_pos hold, if_pos hold, Array.getD_eq_getD_getElem?]
  · rw [if_neg hold, if_neg hold, Array.getElem?_ofFn]
    by_cases hnew : place < part.samples.size + span
    · rw [dif_pos (by omega), if_pos hnew]
      rfl
    · rw [dif_neg (by omega), if_neg hnew]
      rfl

/-- Silence is a value like any other. -/
theorem rest_eq_extend (part : Part) (span : Nat) : part.rest span = part.extend span fun _ => 0 := by
  have hzeros : Array.replicate span (0 : Int32) = Array.ofFn fun _ : Fin span => (0 : Int32) :=
    Array.ext (by simp) fun i _ _ => by simp
  unfold rest extend
  rw [hzeros]

theorem getD_rest (part : Part) (span place : Nat) :
    (part.rest span).samples.getD place 0 = part.samples.getD place 0 := by
  rw [rest_eq_extend, getD_extend, ite_self]
  by_cases hold : place < part.samples.size
  · rw [if_pos hold]
  · rw [if_neg hold, Array.getD_eq_getD_getElem?, Array.getElem?_eq_none (by omega)]
    rfl

end Part

namespace Rendering

/-- Renders channels in order, each in a row of its own. -/
def parts (setup : Setup) : List Channel → Report (List Part)
  | [] => pure []
  | channel :: rest => do
    let part ← Part.addNotes setup channel.name ⟨#[], []⟩ channel.notes.toList
    return part :: (← parts setup rest)

/-- The sum of the channels at a place; what a channel has not got is silence. -/
def sumAt (parts : List Part) (i : Nat) : Int32 :=
  parts.foldl (fun sum part => sum + part.samples.getD i 0) 0

/-- The sum of the channels over the whole buffer. -/
def mix (length : Nat) (parts : List Part) : Array Int32 :=
  Array.ofFn fun i : Fin length => sumAt parts i

end Rendering

/-! ## A row added to a mix -/

namespace Mix

open Rendering

variable {setup : Setup} {channel : String}

/-- Adds a row to the sums, place by place, and its errors behind those there are. -/
def addPart (mix : Mix) (part : Part) : Mix :=
  ⟨mix.sums.mapIdx fun i sum => sum + part.samples.getD i 0, mix.errors ++ part.errors⟩

theorem addPart_empty (mix : Mix) : mix.addPart ⟨#[], []⟩ = mix := by
  have hsums : (mix.sums.mapIdx fun i sum => sum + (#[] : Array Int32).getD i 0) = mix.sums :=
    Array.ext (by simp) fun i _ _ => by simp
  unfold addPart
  rw [hsums, List.append_nil]

/-- **Where a row grows, the sums change**, there and nowhere else. -/
theorem addPart_extend (mix : Mix) (part : Part) (span : Nat) (value : Nat → Int32) :
    mix.addPart (part.extend span value) =
      (mix.addPart part).add part.samples.size span value := by
  refine congrArg (Mix.mk · _) (Array.ext_getElem? fun i => ?_)
  simp only [addPart, getElem?_changeStretch, Array.getElem?_mapIdx, Part.getD_extend,
    Option.map_map]
  by_cases hold : i < part.samples.size
  · rw [if_pos hold, if_neg (by omega)]
  · have hbeyond : part.samples.getD i 0 = 0 := by
      rw [Array.getD_eq_getD_getElem?, Array.getElem?_eq_none (by omega)]
      rfl
    rw [if_neg hold, hbeyond]
    by_cases hnew : i < part.samples.size + span
    · rw [if_pos hnew, if_pos (by omega)]
      refine congrArg (Option.map · _) (funext fun sum => ?_)
      exact congrArg (· + _) (Int32.add_zero sum).symm
    · rw [if_neg hnew, if_neg (by omega)]

/-- Silence changes no sum. -/
theorem addPart_rest (mix : Mix) (part : Part) (span : Nat) :
    mix.addPart (part.rest span) = mix.addPart part := by
  unfold addPart
  simp only [Part.getD_rest]
  rfl

theorem addPart_refused (mix : Mix) (part : Part) (span : Nat) (cause : Error) :
    mix.addPart ⟨(part.rest span).samples, (part.rest span).errors ++ [cause]⟩ =
      ⟨(mix.addPart part).sums, (mix.addPart part).errors ++ [cause]⟩ := by
  unfold addPart
  simp only [Part.getD_rest, List.append_assoc]
  rfl

/-- **What a channel adds does not depend on the mix.** By induction on the notes, for any row: the
row ends where the next note starts, as long as there is buffer left. -/
theorem addNotes_addPart (mix : Mix) {part : Part} {offset : Nat} {notes : List Note}
    (h : part.samples.size = min offset setup.length) :
    (mix.addPart part).addNotes setup channel offset notes =
      mix.addPart <$> part.addNotes setup channel notes := by
  induction notes generalizing part offset with
  | nil => rfl
  | cons note later ih =>
    unfold Mix.addNotes Part.addNotes
    by_cases hfull : setup.length ≤ offset
    · rw [if_pos hfull, if_pos (by omega), map_pure]
    · obtain rfl : part.samples.size = offset := by omega
      rw [if_neg hfull, if_neg hfull, map_bind]
      refine bind_congr fun seconds => ?_
      rw [map_bind]
      refine bind_congr fun count => ?_
      simp only
      generalize hspan : min count.toNat (setup.length - part.samples.size) = span
      have hrest : (part.rest span).samples.size =
          min (part.samples.size + count.toNat) setup.length := by
        rw [Part.size_rest]
        omega
      by_cases hsilent : note.volume = 0 ∨ span = 0
      · rw [if_pos hsilent, if_pos hsilent, ← ih hrest, addPart_rest]
      · rw [if_neg hsilent, if_neg hsilent]
        cases voice setup.registry note with
        | ok found =>
          simp only [map_bind]
          refine bind_congr fun value => ?_
          rw [← addPart_extend, ih (by rw [Part.size_extend]; omega)]
        | error cause =>
          simp only
          split
          · rw [map_bind]
            refine bind_congr fun _ => ?_
            rw [← addPart_refused mix part span]
            exact ih hrest
          · rfl

theorem addNotes_eq (mix : Mix) (notes : List Note) :
    mix.addNotes setup channel 0 notes =
      mix.addPart <$> Part.addNotes setup channel ⟨#[], []⟩ notes := by
  have hempty : (#[] : Array Int32).size = min 0 setup.length := (Nat.zero_min _).symm
  rw [← @addNotes_addPart setup channel mix ⟨#[], []⟩ 0 notes hempty, addPart_empty]

theorem addChannels_eq (mix : Mix) (channels : List Channel) :
    mix.addChannels setup channels =
      (fun rendered => rendered.foldl addPart mix) <$> parts setup channels := by
  induction channels generalizing mix with
  | nil => rfl
  | cons channel rest ih =>
    unfold Mix.addChannels parts
    simp only [addNotes_eq, bind_map_left, map_bind, map_pure, ih, List.foldl_cons]
    simp only [map_eq_pure_bind]

theorem foldl_addPart (mix : Mix) (rendered : List Part) :
    rendered.foldl addPart mix =
      ⟨mix.sums.mapIdx fun i sum =>
          rendered.foldl (fun sum part => sum + part.samples.getD i 0) sum,
        mix.errors ++ rendered.flatMap (·.errors)⟩ := by
  induction rendered generalizing mix with
  | nil =>
    have hsums : (mix.sums.mapIdx fun _ sum => sum) = mix.sums :=
      Array.ext (by simp) fun i _ _ => by simp
    simp [hsums]
  | cons part rest ih =>
    rw [List.foldl_cons, ih]
    simp [addPart, Array.mapIdx_mapIdx, Function.comp_def]

/-- **One buffer for all channels** holds what their rows add up to, and the errors of one after the
other. The two runs have the same outcome and report the same events. -/
theorem addChannels_silence (setup : Setup) (channels : List Channel) :
    (silence setup.length).addChannels setup channels =
      (fun rendered => ⟨mix setup.length rendered, rendered.flatMap (·.errors)⟩) <$>
        parts setup channels := by
  rw [addChannels_eq]
  refine congrArg (· <$> _) (funext fun rendered => ?_)
  rw [foldl_addPart]
  have hsums : ((silence setup.length).sums.mapIdx fun i sum =>
      rendered.foldl (fun sum part => sum + part.samples.getD i 0) sum) = mix setup.length rendered :=
    Array.ext (by simp [silence, mix]) fun i _ _ => by simp [silence, mix, sumAt]
  rw [hsums]
  rfl

variable {channels : List Channel} {notes : List Note} {mixed : Mix}

/-- Channels can be mixed exactly if each of them can be rendered apart. -/
theorem addChannels_silence_eq_ok_iff :
    ((silence setup.length).addChannels setup channels).outcome = .ok mixed ↔
      ∃ rendered, (parts setup channels).outcome = .ok rendered ∧
        mixed = ⟨mix setup.length rendered, rendered.flatMap (·.errors)⟩ := by
  rw [addChannels_silence, Report.outcome_map_eq_ok]

/-- A channel alone in a buffer has the errors that it has apart. -/
theorem exists_addNotes_silence {part : Part}
    (h : (Part.addNotes setup channel ⟨#[], []⟩ notes).outcome = .ok part) :
    ∃ alone : Mix, ((silence setup.length).addNotes setup channel 0 notes).outcome = .ok alone ∧
      alone.errors = part.errors := by
  refine ⟨(silence setup.length).addPart part, ?_, List.nil_append _⟩
  rw [addNotes_eq, Report.outcome_map_eq_ok]
  exact ⟨part, h, rfl⟩

end Mix

end Chiptune
