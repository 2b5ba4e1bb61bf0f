import Mathlib.Data.List.Basic
import Chiptune.Channel.Builder

/-!
# Runs of a builder

`Builder.feed` schedules a line, carries its instructions out, goes on to the next line, and stops
at the first failure. For what becomes of the *builder* only the instructions matter: feeding a
text is carrying out one list of instructions, those of all its lines in order
(`feed_reaches`). The log is the one thing the two differ in, since a line reports what it matched
before anything of it is carried out; so they are compared up to the log (`Progress.Reaches`).
-/

namespace Chiptune

/-! ## Going on -/

namespace Progress

/-- Two ways of working that leave the builder alike and stop alike. -/
def Reaches (p q : Progress) : Prop := p.builder = q.builder ∧ p.failure? = q.failure?

theorem Reaches.refl (p : Progress) : p.Reaches p := ⟨rfl, rfl⟩

theorem Reaches.trans {p q r : Progress} (h : p.Reaches q) (h' : q.Reaches r) : p.Reaches r :=
  ⟨h.1.trans h'.1, h.2.trans h'.2⟩

theorem Reaches.symm {p q : Progress} (h : p.Reaches q) : q.Reaches p := ⟨h.1.symm, h.2.symm⟩

theorem andThen_of_none {p : Progress} (h : p.failure? = none) (next : Builder → Progress) :
    (p.andThen next).Reaches (next p.builder) := by
  unfold andThen
  rw [h]
  exact ⟨rfl, rfl⟩

theorem andThen_of_some {p : Progress} {error : Error} (h : p.failure? = some error)
    (next : Builder → Progress) : p.andThen next = p := by
  unfold andThen
  rw [h]

/-- Work in two parts has gone through iff both parts have. -/
theorem failure?_andThen_eq_none {p : Progress} {next : Builder → Progress} :
    (p.andThen next).failure? = none ↔
      p.failure? = none ∧ (next p.builder).failure? = none := by
  cases h : p.failure? with
  | none => simpa using congrArg (· = none) (andThen_of_none h next).2
  | some error => simp [andThen_of_some h, h]

theorem Reaches.andThen {p q : Progress} {next next' : Builder → Progress} (h : p.Reaches q)
    (hnext : (next p.builder).Reaches (next' p.builder)) :
    (p.andThen next).Reaches (q.andThen next') := by
  cases hp : p.failure? with
  | none =>
    have hq : q.failure? = none := by rw [← h.2, hp]
    refine (andThen_of_none hp next).trans (hnext.trans ?_)
    rw [h.1]
    exact (andThen_of_none hq next').symm
  | some error =>
    have hq : q.failure? = some error := by rw [← h.2, hp]
    rw [andThen_of_some hp, andThen_of_some hq]
    exact h

theorem andThen_assoc (p : Progress) (next later : Builder → Progress) :
    ((p.andThen next).andThen later).Reaches
      (p.andThen fun builder => (next builder).andThen later) := by
  cases hp : p.failure? with
  | none =>
    refine Reaches.trans (Reaches.andThen (andThen_of_none hp next) (.refl _)) ?_
    exact (andThen_of_none hp fun builder => (next builder).andThen later).symm
  | some error =>
    rw [andThen_of_some hp, andThen_of_some hp, andThen_of_some hp]
    exact .refl _

end Progress

/-! ## One list of instructions -/

/-- The instructions of a text, line after line. -/
def Schedule.ofText (table : List Kind) (text : List Char) : List Instruction :=
  (Text.lines text).flatMap (Schedule.ofLine table)

namespace Builder

theorem applyAll_append (builder : Builder) (before later : List Instruction) :
    (builder.applyAll (before ++ later)).Reaches
      ((builder.applyAll before).andThen fun next => next.applyAll later) := by
  induction before generalizing builder with
  | nil => exact ⟨rfl, rfl⟩
  | cons instruction rest ih =>
    have hassoc := Progress.andThen_assoc (builder.apply instruction.kind instruction.argument)
      (fun next => next.applyAll rest) fun next => next.applyAll later
    refine Progress.Reaches.trans ?_ hassoc.symm
    exact Progress.Reaches.andThen (.refl _) (ih _)

theorem applyAll_concat (builder : Builder) (before : List Instruction) (i : Instruction) :
    (builder.applyAll (before ++ [i])).Reaches
      ((builder.applyAll before).andThen fun next => next.apply i.kind i.argument) := by
  refine (applyAll_append builder before [i]).trans (Progress.Reaches.andThen (.refl _) ?_)
  rw [applyAll]
  cases h : ((builder.applyAll before).builder.apply i.kind i.argument).failure? with
  | none => exact (Progress.andThen_of_none h _).trans ⟨rfl, h.symm⟩
  | some error =>
    rw [Progress.andThen_of_some h]
    exact .refl _

/-! Reporting never touches the builder, and no instruction touches the table. -/

@[simp] theorem tell_builder (builder : Builder) (event : Event) :
    (builder.tell event).builder = builder := by
  unfold tell refuse
  split <;> rfl

@[simp] theorem setContext_builder (builder : Builder) (context : Context) (event : Event) :
    (builder.setContext context event).builder = { builder with context } := by
  simp [setContext]

theorem withNumber_table {builder : Builder} {argument : String} {next : Int → Progress}
    (h : ∀ n, (next n).builder.table = builder.table) :
    (builder.withNumber argument next).builder.table = builder.table := by
  unfold withNumber
  split
  · exact h _
  · rfl

@[simp] theorem addNote_table (builder : Builder) (token : String) :
    (builder.addNote token).builder.table = builder.table := by
  unfold addNote
  split
  · rw [tell_builder]
    rfl
  · rfl

@[simp] theorem apply_table (builder : Builder) (kind : Kind) (argument : String) :
    (builder.apply kind argument).builder.table = builder.table := by
  cases kind with
  | timbre => simp [apply, setTimbre]
  | volume => exact withNumber_table fun n => by simp [setVolume]
  | volumeUp => exact withNumber_table fun n => by simp [addVolume]
  | volumeDown => exact withNumber_table fun n => by simp [addVolume]
  | octave => exact withNumber_table fun n => by simp [setOctave]
  | octaveUp => simp [apply, addOctave]
  | octaveDown => simp [apply, addOctave]
  | length => exact withNumber_table fun n => by simp [setDuration]
  | tempo => simp [apply, skipTempo]
  | timedNote => exact addNote_table builder argument
  | note => exact addNote_table builder argument

theorem applyAll_table (builder : Builder) (instructions : List Instruction) :
    (builder.applyAll instructions).builder.table = builder.table := by
  induction instructions generalizing builder with
  | nil => rfl
  | cons instruction rest ih =>
    rw [applyAll]
    cases h : (builder.apply instruction.kind instruction.argument).failure? with
    | none => rw [(Progress.andThen_of_none h _).1, ih, apply_table]
    | some error => rw [Progress.andThen_of_some h, apply_table]

/-! An instruction adds at most one note, and only one whose numbers can be written: the report of
it would have failed. -/

theorem withNumber_channel {builder : Builder} {argument : String} {next : Int → Progress}
    (h : ∀ n, (next n).builder.channel = builder.channel) :
    (builder.withNumber argument next).builder.channel = builder.channel := by
  unfold withNumber
  split
  · exact h _
  · rfl

theorem isWritable_noteAdded (note : Note) :
    (Event.noteAdded note).isWritable = note.isWritable := by
  simp [Event.isWritable, Event.numbers, Note.isWritable, Bool.and_assoc]

theorem addNote_channel {builder : Builder} {token : String}
    (h : (builder.addNote token).failure? = none) :
    ∃ note, note.isWritable = true ∧
      (builder.addNote token).builder.channel = builder.channel.push note := by
  unfold addNote at h ⊢
  cases hread : readNote builder.context token with
  | error error =>
    rw [hread] at h
    cases h
  | ok note =>
    rw [hread] at h
    refine ⟨note, ?_, by simp [push]⟩
    by_contra hwritable
    simp only [tell, isWritable_noteAdded, if_neg hwritable] at h
    cases h

theorem apply_channel {builder : Builder} {kind : Kind} {argument : String}
    (h : (builder.apply kind argument).failure? = none) :
    (builder.apply kind argument).builder.channel = builder.channel ∨
      ∃ note, note.isWritable = true ∧
        (builder.apply kind argument).builder.channel = builder.channel.push note := by
  cases kind with
  | timbre => exact Or.inl (by simp [apply, setTimbre])
  | volume => exact Or.inl (withNumber_channel fun n => by simp [setVolume])
  | volumeUp => exact Or.inl (withNumber_channel fun n => by simp [addVolume])
  | volumeDown => exact Or.inl (withNumber_channel fun n => by simp [addVolume])
  | octave => exact Or.inl (withNumber_channel fun n => by simp [setOctave])
  | octaveUp => exact Or.inl (by simp [apply, addOctave])
  | octaveDown => exact Or.inl (by simp [apply, addOctave])
  | length => exact Or.inl (withNumber_channel fun n => by simp [setDuration])
  | tempo => exact Or.inl (by simp [apply, skipTempo])
  | timedNote => exact Or.inr (addNote_channel h)
  | note => exact Or.inr (addNote_channel h)

theorem isWritable_of_mem_applyAll {builder : Builder} {instructions : List Instruction}
    (hbuilder : ∀ note ∈ builder.channel.notes, note.isWritable = true)
    (h : (builder.applyAll instructions).failure? = none) :
    ∀ note ∈ (builder.applyAll instructions).builder.channel.notes, note.isWritable = true := by
  induction instructions generalizing builder with
  | nil => exact hbuilder
  | cons i rest ih =>
    rw [applyAll] at h ⊢
    obtain ⟨hfirst, hrest⟩ := Progress.failure?_andThen_eq_none.mp h
    rw [(Progress.andThen_of_none hfirst _).1]
    refine ih (fun note hnote => ?_) hrest
    rcases apply_channel hfirst with hsame | ⟨added, hadded, hpushed⟩
    · rw [hsame] at hnote
      exact hbuilder note hnote
    · rw [hpushed] at hnote
      rcases Array.mem_push.mp hnote with hold | rfl
      · exact hbuilder note hold
      · exact hadded

theorem feedLine_reaches (builder : Builder) (line : List Char) :
    (builder.feedLine line).Reaches (builder.applyAll (Schedule.ofLine builder.table line)) :=
  ⟨rfl, rfl⟩

theorem feedLines_reaches (builder : Builder) (lines : List (List Char)) :
    (builder.feedLines lines).Reaches
      (builder.applyAll (lines.flatMap (Schedule.ofLine builder.table))) := by
  induction lines generalizing builder with
  | nil => exact .refl _
  | cons line rest ih =>
    have happend := applyAll_append builder (Schedule.ofLine builder.table line)
      (rest.flatMap (Schedule.ofLine builder.table))
    rw [List.flatMap_cons]
    refine Progress.Reaches.trans ?_ happend.symm
    refine Progress.Reaches.andThen (feedLine_reaches builder line) ?_
    -- The lines behind are scheduled by the table of the builder that has come so far.
    have htable : (builder.feedLine line).builder.table = builder.table := by
      rw [(feedLine_reaches builder line).1, applyAll_table]
    rw [← htable]
    exact ih _

/-- **Feeding a text is carrying out the instructions of its lines**, one list from the first to
the last. -/
theorem feed_reaches (builder : Builder) (text : List Char) :
    (builder.feed text).Reaches (builder.applyAll (Schedule.ofText builder.table text)) :=
  feedLines_reaches builder (Text.lines text)

end Builder
end Chiptune
