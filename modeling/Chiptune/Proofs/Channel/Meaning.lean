import Mathlib.Data.List.Induction
import Chiptune.Proofs.Channel.Context
import Chiptune.Proofs.Channel.Run
import Chiptune.Proofs.Channel.Spelling
import Chiptune.Proofs.Decimal.DigitRun
import Chiptune.Proofs.Instruction.Reading

/-!
# What a channel means

A note is settled by the context in front of it and its own text (`Note.Renders`). A channel that
builds holds exactly the notes that its instructions play, in their order, each in the context
behind the instructions in front of it (`Channel.Holds`): that is `Channel.build_renders`.

The proof is an induction over prefixes of the instructions. A step is `apply_of_not_plays` or
`apply_of_plays`: an instruction either moves the context and leaves the channel alone, or the other
way round. Nothing else could be true of a note that carries into the next octave, of a duration
of its own, or of a rest: what they change is in the note and never in the context.
-/

namespace Chiptune

/-! ## What a note is -/

/-- What a note is, given the context in front of it and the instruction that plays it. A tone
stands where letter and accidental put it, counted in semitones from the context's octave, in
whatever octave that is; a rest stays in the octave of the context, whatever its accidental. -/
structure Note.Renders (context : Context) (instruction : Instruction) (note : Note) : Prop where
  scaleIndex_le : (note.scaleIndex : Nat) ≤ 11
  duration_pos : 1 ≤ note.duration
  duration_eq : (note.duration : Int) =
    if instruction.kind = .timedNote then
      (Text.digitsValue (instruction.argument.toList.takeWhile Text.isDigit) : Int)
    else context.duration
  timbre_eq : note.timbre = context.timbre
  pitch : ∃ head marks, instruction.noteName = head :: marks ∧
    (head = 'R' ∧ note.isRest = true ∧ note.volume = 0 ∧ (note.scaleIndex : Nat) = 0 ∧
        note.octave = context.octave ∨
      ∃ semitones, (head, semitones) ∈ naturals ∧ note.isRest = false ∧
        note.volume = context.volume ∧
        12 * note.octave + (note.scaleIndex : Nat) =
          12 * context.octave + semitones + accidentalOf marks)

/-! ## Reading a note -/

theorem Pitch.ofIndex_eq_ok {index : Int} {place : Fin 12}
    (h : Pitch.ofIndex index = .ok place) : ((place : Nat) : Int) = index := by
  unfold Pitch.ofIndex at h
  split at h
  · rename_i hbounds
    cases h
    exact Int.toNat_of_nonneg hbounds.1
  · cases h

/-- The parts of a note that was made. -/
theorem Note.make_eq_ok {scaleIndex duration octave volume : Int} {timbre : String} {isRest : Bool}
    {note : Note} (h : Note.make scaleIndex duration octave volume timbre isRest = .ok note) :
    ((note.scaleIndex : Nat) : Int) = scaleIndex ∧ (note.duration : Int) = duration ∧
      note.octave = octave ∧ note.volume = (if isRest then 0 else volume) ∧
        note.timbre = timbre ∧ note.isRest = isRest := by
  unfold Note.make at h
  obtain ⟨index, hindex, h⟩ := bind_eq_ok_iff.mp h
  have hplace : ((index : Nat) : Int) = scaleIndex := Pitch.ofIndex_eq_ok hindex
  split at h
  · cases h
  · rename_i hduration
    cases h
    exact ⟨hplace, Int.toNat_of_nonneg (by omega), rfl, rfl, rfl, rfl⟩

/-- The carry puts a note where its index says, whichever octave that is in. -/
theorem Note.ofSpelling_eq_ok {spelling : Spelling} {duration octave volume : Int}
    {timbre : String} {note : Note}
    (h : Note.ofSpelling spelling duration octave volume timbre = .ok note) :
    12 * note.octave + (note.scaleIndex : Nat) = 12 * octave + spelling.scaleIndex ∧
      (spelling.scaleIndex = 0 → note.octave = octave) ∧ (note.duration : Int) = duration ∧
        note.volume = (if spelling.isRest then 0 else volume) ∧ note.timbre = timbre ∧
          note.isRest = spelling.isRest := by
  unfold Note.ofSpelling at h
  simp only at h
  split at h
  · obtain ⟨hindex, hduration, hoctave, hvolume, htimbre, hrest⟩ := Note.make_eq_ok h
    exact ⟨by omega, by omega, hduration, hvolume, htimbre, hrest⟩
  · split at h
    · obtain ⟨hindex, hduration, hoctave, hvolume, htimbre, hrest⟩ := Note.make_eq_ok h
      exact ⟨by omega, by omega, hduration, hvolume, htimbre, hrest⟩
    · obtain ⟨hindex, hduration, hoctave, hvolume, htimbre, hrest⟩ := Note.make_eq_ok h
      exact ⟨by omega, by omega, hduration, hvolume, htimbre, hrest⟩

/-- A note that a name gives in a context, given that it gets the duration it should. -/
theorem Note.renders_of_ofName {context : Context} {i : Instruction} {duration : Int} {note : Note}
    (hname : NoteShape i.noteName)
    (hduration : duration = if i.kind = .timedNote then
      (Text.digitsValue (i.argument.toList.takeWhile Text.isDigit) : Int) else context.duration)
    (h : Note.ofName (String.ofList i.noteName) duration context.octave context.volume
      context.timbre = .ok note) :
    note.Renders context i := by
  obtain ⟨head, marks, spelling, hhead, hspelling, hwhat⟩ := hname.read
  have hmade : Note.ofSpelling spelling duration context.octave context.volume context.timbre =
      .ok note := by
    unfold Note.ofName Pitch.spelling at h
    rw [String.toList_ofList, hspelling] at h
    exact h
  obtain ⟨hplace, hstays, hlasts, hvolume, htimbre, hrest⟩ := Note.ofSpelling_eq_ok hmade
  have hindex := note.scaleIndex.isLt
  refine ⟨by omega, note.duration_pos, hlasts.trans hduration, htimbre, head, marks, hhead, ?_⟩
  rcases hwhat with ⟨hR, hisRest, hzero⟩ | ⟨semitones, hsemitones, hisRest, hspelled⟩
  · have hoctave := hstays hzero
    rw [hisRest] at hrest hvolume
    exact Or.inl ⟨hR, hrest, hvolume, by omega, hoctave⟩
  · rw [hisRest] at hrest hvolume
    exact Or.inr ⟨semitones, hsemitones, hrest, hvolume, by omega⟩

namespace Builder

theorem splitToken_of_timedNote {digits note : List Char} (hne : digits ≠ [])
    (hdigits : ∀ d ∈ digits, Text.isDigit d = true) (hnote : NoteShape note) :
    splitToken (digits ++ note) = (some digits, note) := by
  have hstops : StopsAt Text.isDigit note := by simpa using hnote.stopsAt_digit []
  unfold splitToken Pattern.digits
  rw [takeWhile_append_of_stopsAt hdigits hstops, dropWhile_append_of_stopsAt hdigits hstops,
    dropFinalNewline_of_not_mem hnote.newline_not_mem]
  simp [hne, hnote.newline_not_mem]

theorem splitToken_of_note {note : List Char} (hnote : NoteShape note) :
    splitToken note = (none, note) := by
  have hstops : StopsAt Text.isDigit note := by simpa using hnote.stopsAt_digit []
  have hnone : note.takeWhile Text.isDigit = [] :=
    @takeWhile_append_of_stopsAt _ [] _ (by simp) hstops
  unfold splitToken Pattern.digits
  simp [hnone]

theorem readNumber_of_digits {argument : List Char} (hne : argument ≠ [])
    (hdigits : ∀ d ∈ argument, Text.isDigit d = true) :
    readNumber argument =
      if Decimal.maxDigits < argument.length then
        .error (.notInteger 10 (Text.pointsOf argument) (.tooLong argument.length))
      else .ok (Text.digitsValue argument) := by
  unfold readNumber
  rw [Decimal.read_of_digits hne hdigits]
  by_cases hlong : Decimal.maxDigits < argument.length
  · simp [hlong]
  · simp [hlong]

theorem readNumber_eq_ok {argument : List Char} {n : Int} (hne : argument ≠ [])
    (hdigits : ∀ d ∈ argument, Text.isDigit d = true) (h : readNumber argument = .ok n) :
    n = Text.digitsValue argument := by
  rw [readNumber_of_digits hne hdigits] at h
  split at h
  · cases h
  · exact (Except.ok.inj h).symm

/-- **The note that an instruction plays** is the one that its text means in the context. -/
theorem renders_of_readNote {context : Context} {i : Instruction} {token : List Char} {note : Note}
    (hshape : i.kind.Shape token i.argument.toList) (hplays : i.plays = true)
    (h : readNote context i.argument = .ok note) : note.Renders context i := by
  obtain ⟨offset, kind, argument⟩ := i
  simp only at hshape h
  generalize hargument : argument.toList = text at hshape
  cases hshape with
  | @timedNote digits name hne hdigits hname =>
    -- No note begins with a digit, so the digits end where the name begins.
    have hstops : StopsAt Text.isDigit name := by simpa using hname.stopsAt_digit []
    have hnoteName : Instruction.noteName ⟨offset, .timedNote, argument⟩ = name := by
      show argument.toList.dropWhile Text.isDigit = name
      rw [hargument, dropWhile_append_of_stopsAt hdigits hstops]
    unfold readNote at h
    rw [hargument, splitToken_of_timedNote hne hdigits hname] at h
    obtain ⟨n, hn, hmade⟩ := bind_eq_ok_iff.mp h
    refine Note.renders_of_ofName (hnoteName ▸ hname) ?_ (hnoteName ▸ hmade)
    rw [if_pos rfl, readNumber_eq_ok hne hdigits hn]
    show _ = ((Text.digitsValue (argument.toList.takeWhile Text.isDigit) : Nat) : Int)
    rw [hargument, takeWhile_append_of_stopsAt hdigits hstops]
  | note hname =>
    have hstops : StopsAt Text.isDigit token := by simpa using hname.stopsAt_digit []
    have hnoteName : Instruction.noteName ⟨offset, .note, argument⟩ = token := by
      show argument.toList.dropWhile Text.isDigit = token
      rw [hargument]
      exact @dropWhile_append_of_stopsAt _ [] _ (by simp) hstops
    unfold readNote at h
    rw [hargument, splitToken_of_note hname] at h
    exact Note.renders_of_ofName (hnoteName ▸ hname) rfl (hnoteName ▸ h)
  | number hmark _ _ => cases kind <;> simp [Instruction.plays, Kind.numberMarks] at hplays hmark
  | timbre _ _ => simp [Instruction.plays] at hplays
  | octaveUp => simp [Instruction.plays] at hplays
  | octaveDown => simp [Instruction.plays] at hplays

/-! ## One instruction, and a run of them -/

/-- A number that an instruction takes is the one that its argument spells. -/
theorem withNumber_of_goes {builder : Builder} {i : Instruction} {token : List Char}
    {next : Int → Progress} (hshape : i.kind.Shape token i.argument.toList)
    (hmarks : i.kind.numberMarks ≠ [])
    (h : (builder.withNumber i.argument next).failure? = none) :
    builder.withNumber i.argument next = next i.amount := by
  obtain ⟨offset, kind, argument⟩ := i
  simp only at hshape hmarks h ⊢
  have hdigits := hshape.digits_of_numberMarks hmarks
  unfold withNumber at h ⊢
  cases hn : readNumber argument.toList with
  | ok n =>
    rw [readNumber_eq_ok hdigits.1 hdigits.2 hn]
    rfl
  | error error => simp [hn, refuse] at h

/-- The builder behind an instruction that does not play: the context has moved. -/
theorem apply_of_not_plays {builder : Builder} {i : Instruction} {token : List Char}
    (hshape : i.kind.Shape token i.argument.toList) (hplays : i.plays = false)
    (h : (builder.apply i.kind i.argument).failure? = none) :
    (builder.apply i.kind i.argument).builder =
      { builder with context := builder.context.step i } := by
  -- The setters write what `Context.step` writes; most of them have a number to read first.
  have hnumber := @withNumber_of_goes builder i token
  obtain ⟨offset, kind, argument⟩ := i
  simp only at hshape hplays h hnumber ⊢
  cases kind with
  | timbre => simp [apply, setTimbre, Context.step]
  | volume =>
    rw [apply, hnumber hshape (by decide) h]
    simp [setVolume, Context.step]
  | volumeUp =>
    rw [apply, hnumber hshape (by decide) h]
    simp [addVolume, Context.step]
  | volumeDown =>
    rw [apply, hnumber hshape (by decide) h]
    simp [addVolume, Context.step, Int.sub_eq_add_neg]
  | octave =>
    rw [apply, hnumber hshape (by decide) h]
    simp [setOctave, Context.step]
  | octaveUp => simp [apply, addOctave, Context.step]
  | octaveDown => simp [apply, addOctave, Context.step, Int.sub_eq_add_neg]
  | length =>
    rw [apply, hnumber hshape (by decide) h]
    simp [setDuration, Context.step]
  | tempo => simp [apply, skipTempo, Context.step]
  | timedNote => simp [Instruction.plays] at hplays
  | note => simp [Instruction.plays] at hplays

/-- The builder behind an instruction that plays: one note more, and nothing else. -/
theorem apply_of_plays {builder : Builder} {i : Instruction} {token : List Char}
    (hshape : i.kind.Shape token i.argument.toList) (hplays : i.plays = true)
    (h : (builder.apply i.kind i.argument).failure? = none) :
    ∃ note, note.Renders builder.context i ∧
      (builder.apply i.kind i.argument).builder = builder.push note := by
  have happly : builder.apply i.kind i.argument = builder.addNote i.argument := by
    rcases Instruction.plays_iff.mp hplays with hkind | hkind <;> rw [hkind] <;> rfl
  rw [happly] at h ⊢
  unfold addNote at h ⊢
  cases hnote : readNote builder.context i.argument with
  | ok note => exact ⟨note, renders_of_readNote hshape hplays hnote, by simp⟩
  | error error => simp [hnote, refuse] at h

end Builder

/-- The notes of a channel are those that the instructions play: one for each that plays, in their
order, each in the context behind the instructions in front of it. -/
def Channel.Holds (channel : Channel) (instructions : List Instruction) : Prop :=
  channel.notes.size = instructions.countP Instruction.plays ∧
    ∀ k (hk : k < instructions.length), instructions[k].plays = true →
      ∃ note, channel.notes[(instructions.take k).countP Instruction.plays]? = some note ∧
        note.Renders (Context.behind (instructions.take k)) instructions[k]

/-- An instruction that does not play leaves a channel as it is. -/
theorem Channel.Holds.concat_of_not_plays {channel : Channel} {instructions : List Instruction}
    {i : Instruction} (h : channel.Holds instructions) (hplays : i.plays = false) :
    channel.Holds (instructions ++ [i]) := by
  refine ⟨by rw [h.1, List.countP_append]; simp [hplays], fun k hk hk' => ?_⟩
  by_cases hlast : k < instructions.length
  · rw [List.getElem_append_left hlast] at hk' ⊢
    rw [List.take_append_of_le_length (by omega)]
    exact h.2 k hlast hk'
  · have : k = instructions.length := by
      rw [List.length_append, List.length_singleton] at hk
      omega
    subst this
    rw [List.getElem_concat_length rfl, hplays] at hk'
    exact absurd hk' (by simp)

/-- An instruction that plays adds its note at the end. -/
theorem Channel.Holds.concat_of_plays {channel : Channel} {instructions : List Instruction}
    {i : Instruction} {note : Note} (h : channel.Holds instructions) (hplays : i.plays = true)
    (hnote : note.Renders (Context.behind instructions) i) :
    (channel.push note).Holds (instructions ++ [i]) := by
  refine ⟨?_, fun k hk hk' => ?_⟩
  · show (channel.notes.push note).size = _
    rw [Array.size_push, h.1, List.countP_append]
    simp [hplays]
  · by_cases hlast : k < instructions.length
    · rw [List.getElem_append_left hlast] at hk' ⊢
      rw [List.take_append_of_le_length (by omega)]
      -- A channel only grows at its end, so what is there stays where it is.
      obtain ⟨old, hold, hrenders⟩ := h.2 k hlast hk'
      refine ⟨old, ?_, hrenders⟩
      have hbound := (Array.getElem?_eq_some_iff.mp hold).1
      show (channel.notes.push note)[_]? = _
      rw [Array.getElem?_push_lt hbound, ← hold, Array.getElem?_eq_getElem hbound]
    · have : k = instructions.length := by
        rw [List.length_append, List.length_singleton] at hk
        omega
      subst this
      rw [List.getElem_concat_length rfl, List.take_left]
      refine ⟨note, ?_, hnote⟩
      show (channel.notes.push note)[_]? = _
      rw [← h.1, Array.getElem?_push_size]

namespace Builder

/-- **What a run has built.** The invariant of a run from the start: the context is the backward
view of the instructions so far, and the channel holds what they play. -/
theorem applyAll_holds {builder : Builder} {instructions : List Instruction}
    (hstart : builder.context = {} ∧ builder.channel.notes = #[])
    (hshape : ∀ i ∈ instructions, ∃ token, i.kind.Shape token i.argument.toList)
    (h : (builder.applyAll instructions).failure? = none) :
    let built := (builder.applyAll instructions).builder
    built.channel.name = builder.channel.name ∧ built.context = Context.behind instructions ∧
      built.channel.Holds instructions := by
  induction instructions using List.reverseRecOn with
  | nil =>
    refine ⟨rfl, hstart.1, ?_, fun k hk => absurd hk (by simp)⟩
    show builder.channel.notes.size = 0
    rw [hstart.2]
    rfl
  | append_singleton before i ih =>
    have hruns := applyAll_append builder before [i]
    rw [hruns.2, Progress.failure?_andThen_eq_none] at h
    obtain ⟨hname, hcontext, hholds⟩ := ih (fun j hj => hshape j (by simp [hj])) h.1
    obtain ⟨token, hi⟩ := hshape i (by simp)
    -- The run in front has gone through as well, and the last instruction starts from its end.
    have hdone : ((builder.applyAll (before ++ [i]))).builder =
        ((builder.applyAll before).builder.apply i.kind i.argument).builder := by
      rw [hruns.1, (Progress.andThen_of_none h.1 _).1, applyAll,
        (Progress.andThen_of_none (Progress.failure?_andThen_eq_none.mp h.2).1 _).1]
      rfl
    have hgoes := (Progress.failure?_andThen_eq_none.mp h.2).1
    show _ ∧ _ ∧ _
    rw [hdone, Context.behind_concat]
    cases hplays : i.plays with
    | false =>
      rw [apply_of_not_plays hi hplays hgoes]
      exact ⟨hname, by rw [← hcontext], hholds.concat_of_not_plays hplays⟩
    | true =>
      obtain ⟨note, hrenders, hpushed⟩ := apply_of_plays hi hplays hgoes
      rw [hpushed, Context.step_of_plays hplays]
      rw [hcontext] at hrenders
      exact ⟨hname, hcontext, hholds.concat_of_plays hplays hrenders⟩

end Builder

theorem Schedule.ofText_table (text : List Char) :
    Schedule.ofText Kind.table text =
      (Text.lines text).flatMap fun line => (tokens line).map (·.toInstruction) := by
  unfold Schedule.ofText
  exact List.flatMap_congr fun line _ => ofLine_table line

/-- A text builds a channel iff its instructions go through, and the channel is what they leave. -/
theorem Channel.build_eq_ok_iff {table : List Kind} {name : String} {text : List Char}
    {channel : Channel} :
    (Channel.build table name text).outcome = .ok channel ↔
      let ran := (Builder.start name table).applyAll (Schedule.ofText table text)
      ran.failure? = none ∧ ran.builder.channel = channel := by
  have hfeed := Builder.feed_reaches (Builder.start name table) text
  have htable : (Builder.start name table).table = table := rfl
  unfold Channel.build
  rw [htable] at hfeed
  simp only [← hfeed.1, ← hfeed.2]
  cases ((Builder.start name table).feed text).failure? <;> simp

/-- **The meaning of a channel.** A text that builds gives a channel with the notes that the
instructions of its lines play, and no others. -/
theorem Channel.build_renders {table : List Kind} {name : String} {text : List Char}
    {channel : Channel} (h : (Channel.build table name text).outcome = .ok channel) :
    channel.name = name ∧ channel.Holds (Schedule.ofText table text) := by
  have hshape : ∀ i ∈ Schedule.ofText table text,
      ∃ token, i.kind.Shape token i.argument.toList := by
    intro i hi
    obtain ⟨line, -, hi⟩ := List.mem_flatMap.mp hi
    exact Schedule.shape_of_mem_ofLine hi
  obtain ⟨hgoes, rfl⟩ := Channel.build_eq_ok_iff.mp h
  obtain ⟨hname, -, hholds⟩ := Builder.applyAll_holds ⟨rfl, rfl⟩ hshape hgoes
  exact ⟨hname, hholds⟩

/-- A part that leaves its octave by a carry and comes back, with a duration of its own. -/
theorem Channel.build_renders_carry :
    ∃ channel, (Channel.build Kind.table "lead" "O5L8B#\n16C-R".toList).outcome = .ok channel ∧
      channel.name = "lead" ∧
        channel.Holds (Schedule.ofText Kind.table "O5L8B#\n16C-R".toList) := by
  have hgoes : ((Builder.start "lead" Kind.table).applyAll
      (Schedule.ofText Kind.table "O5L8B#\n16C-R".toList)).failure? = none := by
    rw [Schedule.ofText_table, ← Option.isNone_iff_eq_none]
    decide +kernel
  have hbuilds := Channel.build_eq_ok_iff.mpr ⟨hgoes, rfl⟩
  exact ⟨_, hbuilds, Channel.build_renders hbuilds⟩

end Chiptune
