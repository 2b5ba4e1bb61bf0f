import Chiptune.Proofs.Channel.Meaning

/-!
# What a failure leaves behind

An instruction does its work first and reports it then. The work is done as a whole or not at all:
a number that cannot be read or a note that is none leaves the builder as it was. `Builder.effect`
is that work without the report, and `apply_eq` says that nothing else is behind an instruction.
Only a report that cannot be put into words comes too late, when the builder has moved on already;
so all that is said here is said of runs whose reports can be written.

Such a run stops in front of the instruction that fails (`feed_stops`): the builder is what the
instructions before that one made of it, each of them carried out (`Builder.CarriesOut`). The proof
is one step, `apply_of_failure`, and an induction over the instructions.
-/

namespace Chiptune
namespace Builder

/-! ## Work and report -/

/-- What an instruction makes of a builder and what it has to report, or why it cannot be carried
out. -/
def effect (builder : Builder) (kind : Kind) (argument : String) :
    Except Error (Builder × Event) :=
  let context := builder.context
  match kind with
  | .timbre => .ok ({ builder with context.timbre := argument }, .timbreSet argument)
  | .volume => do
    let n ← readNumber argument.toList
    return ({ builder with context.volume := n }, .volumeSet n)
  | .volumeUp => do
    let n ← readNumber argument.toList
    return ({ builder with context.volume := context.volume + n },
      .volumeChanged n (context.volume + n))
  | .volumeDown => do
    let n ← readNumber argument.toList
    return ({ builder with context.volume := context.volume + -n },
      .volumeChanged (-n) (context.volume + -n))
  | .octave => do
    let n ← readNumber argument.toList
    return ({ builder with context.octave := n }, .octaveSet n)
  | .octaveUp =>
    .ok ({ builder with context.octave := context.octave + 1 },
      .octaveChanged 1 (context.octave + 1))
  | .octaveDown =>
    .ok ({ builder with context.octave := context.octave + -1 },
      .octaveChanged (-1) (context.octave + -1))
  | .length => do
    let n ← readNumber argument.toList
    return ({ builder with context.duration := n }, .durationSet n)
  | .tempo => .ok (builder, .tempoIgnored argument builder.channel.name)
  | .timedNote | .note => do
    let note ← readNote context argument
    return (builder.push note, .noteAdded note)

/-- What instructions have to report that are carried out in order, up to the first that cannot
be. -/
def reports (builder : Builder) : List Instruction → List Event
  | [] => []
  | i :: rest =>
    match builder.effect i.kind i.argument with
    | .ok (next, event) => event :: next.reports rest
    | .error _ => []

/-- Does work and reports it. -/
def perform (builder : Builder) : Except Error (Builder × Event) → Progress
  | .ok (next, event) => next.tell event
  | .error error => builder.refuse error

theorem withNumber_eq_perform (builder : Builder) (argument : String) {next : Int → Progress}
    {done : Int → Builder × Event} (h : ∀ n, next n = (done n).1.tell (done n).2) :
    builder.withNumber argument next =
      builder.perform (readNumber argument.toList >>= fun n => .ok (done n)) := by
  unfold withNumber
  cases readNumber argument.toList with
  | ok n => exact h n
  | error error => rfl

theorem addNote_eq_perform (builder : Builder) (token : String) :
    builder.addNote token =
      builder.perform (readNote builder.context token >>= fun note =>
        .ok (builder.push note, .noteAdded note)) := by
  unfold addNote
  cases readNote builder.context token <;> rfl

/-- **An instruction is its work and the report of it.** -/
theorem apply_eq (builder : Builder) (kind : Kind) (argument : String) :
    builder.apply kind argument = builder.perform (builder.effect kind argument) := by
  cases kind with
  | timbre | octaveUp | octaveDown | tempo => rfl
  | volume | volumeUp | volumeDown | octave | length =>
    exact withNumber_eq_perform builder argument fun _ => rfl
  | timedNote | note => exact addNote_eq_perform builder argument

/-! ## One instruction -/

/-- **The step.** An instruction that fails, but not for its report, changes nothing. -/
theorem apply_of_failure {builder : Builder} {i : Instruction} {rest : List Instruction}
    {error : Error} (hreports : ∀ event ∈ builder.reports (i :: rest), event.isWritable = true)
    (h : (builder.apply i.kind i.argument).failure? = some error) :
    (builder.apply i.kind i.argument).builder = builder := by
  rw [apply_eq] at h ⊢
  rw [reports] at hreports
  cases heffect : builder.effect i.kind i.argument with
  | error cause => rfl
  | ok found =>
    obtain ⟨next, event⟩ := found
    rw [heffect] at h hreports
    have hwritable : event.isWritable = true := hreports event List.mem_cons_self
    simp only [perform, tell, if_pos hwritable] at h
    cases h

/-- What is left to report behind an instruction that was carried out. -/
theorem reports_of_success {builder : Builder} {i : Instruction} {rest : List Instruction}
    (h : (builder.apply i.kind i.argument).failure? = none) :
    (builder.apply i.kind i.argument).builder.reports rest ⊆ builder.reports (i :: rest) := by
  rw [apply_eq] at h ⊢
  rw [reports]
  cases heffect : builder.effect i.kind i.argument with
  | error cause =>
    rw [heffect] at h
    cases h
  | ok found =>
    obtain ⟨next, event⟩ := found
    simp only [perform, tell_builder]
    exact List.subset_cons_self _ _

theorem applyNamed_of_failure {builder : Builder} {kind argument : String} {error : Error}
    (hreports : ∀ known, Kind.ofName? kind = some known →
      ∀ event ∈ builder.reports [⟨0, known, argument⟩], event.isWritable = true)
    (h : (builder.applyNamed kind argument).failure? = some error) :
    (builder.applyNamed kind argument).builder = builder := by
  unfold applyNamed at h ⊢
  cases hkind : Kind.ofName? kind with
  | none => rfl
  | some known =>
    rw [hkind] at h
    exact apply_of_failure (i := ⟨0, known, argument⟩) (hreports known hkind) h

/-! ## A run -/

/-- Instructions are carried out in order, none of them failing, and lead from one builder to
another. -/
inductive CarriesOut : Builder → List Instruction → Builder → Prop
  | none (builder : Builder) : CarriesOut builder [] builder
  | next {builder last : Builder} {i : Instruction} {rest : List Instruction}
      (goes : (builder.apply i.kind i.argument).failure? = .none)
      (later : CarriesOut (builder.apply i.kind i.argument).builder rest last) :
      CarriesOut builder (i :: rest) last

theorem carriesOut_applyAll {builder : Builder} {instructions : List Instruction}
    (h : (builder.applyAll instructions).failure? = none) :
    builder.CarriesOut instructions (builder.applyAll instructions).builder := by
  induction instructions generalizing builder with
  | nil => exact .none builder
  | cons i rest ih =>
    rw [applyAll] at h ⊢
    obtain ⟨hgoes, hrest⟩ := Progress.failure?_andThen_eq_none.mp h
    rw [(Progress.andThen_of_none hgoes _).1]
    exact .next hgoes (ih hrest)

/-- **The run.** It stops in front of an instruction that fails. -/
theorem exists_failing_of_applyAll {builder : Builder} {instructions : List Instruction}
    {error : Error}
    (hreports : ∀ event ∈ builder.reports instructions, event.isWritable = true)
    (h : (builder.applyAll instructions).failure? = some error) :
    ∃ before i later, instructions = before ++ i :: later ∧
      builder.CarriesOut before (builder.applyAll instructions).builder ∧
      ((builder.applyAll instructions).builder.apply i.kind i.argument).failure? = some error := by
  induction instructions generalizing builder with
  | nil => cases h
  | cons i rest ih =>
    rw [applyAll] at h ⊢
    cases hfirst : (builder.apply i.kind i.argument).failure? with
    | some cause =>
      rw [Progress.andThen_of_some hfirst] at h ⊢
      rw [apply_of_failure hreports hfirst]
      exact ⟨[], i, rest, rfl, .none builder, h⟩
    | none =>
      obtain ⟨hbuilder, hfailure⟩ :=
        Progress.andThen_of_none hfirst fun next => next.applyAll rest
      rw [hfailure] at h
      rw [hbuilder]
      obtain ⟨before, failing, later, hsplit, hcarried, hfails⟩ :=
        ih (fun event hevent => hreports event (reports_of_success hfirst hevent)) h
      exact ⟨i :: before, failing, later, by rw [hsplit, List.cons_append],
        .next hfirst hcarried, hfails⟩

/-- **A failing text stops at the instruction that fails.** Where everything that is reported on the
way can be written, the builder is then what the instructions before that one made of it, and nothing
is left of it or of a later one; a text that does not fail has had all of its instructions carried
out. The same goes for a single instruction of any kind, known or not: if it fails, channel and context
are what they were. -/
theorem feed_stops (builder : Builder) :
    (∀ kind argument error,
      (∀ known, Kind.ofName? kind = some known →
        ∀ event ∈ builder.reports [⟨0, known, argument⟩], event.isWritable = true) →
      (builder.applyNamed kind argument).failure? = some error →
        (builder.applyNamed kind argument).builder = builder) ∧
    ∀ text,
      (∀ event ∈ builder.reports (Schedule.ofText builder.table text), event.isWritable = true) →
      ((builder.feed text).failure? = none →
        builder.CarriesOut (Schedule.ofText builder.table text) (builder.feed text).builder) ∧
      ∀ error, (builder.feed text).failure? = some error →
        ∃ before i later, Schedule.ofText builder.table text = before ++ i :: later ∧
          builder.CarriesOut before (builder.feed text).builder ∧
          ((builder.feed text).builder.apply i.kind i.argument).failure? = some error := by
  refine ⟨fun kind argument error => applyNamed_of_failure, fun text hreports => ?_⟩
  obtain ⟨hbuilder, hfailure⟩ := feed_reaches builder text
  rw [hbuilder, hfailure]
  exact ⟨carriesOut_applyAll, fun error => exists_failing_of_applyAll hreports⟩

/-- The second note has no duration: octave, length and volume are set by then, the first note is
there, and the third is not. A volume that is no number, or an unknown kind, changes nothing. -/
theorem feed_stops_at_second_note :
    let builder := Builder.start "a" Kind.table
    let text := "O5C\nL0V9D(5E".toList
    (∀ event ∈ builder.reports (Schedule.ofText Kind.table text), event.isWritable = true) ∧
    (∃ error, (builder.feed text).failure? = some error ∧
      error.message = "Duration must be at least 1, got 0" ∧
      ∃ before i later, Schedule.ofText Kind.table text = before ++ i :: later ∧
        builder.CarriesOut before (builder.feed text).builder ∧
        ((builder.feed text).builder.apply i.kind i.argument).failure? = some error) ∧
    (builder.feed text).builder.context = ⟨5, 9, 0, "sin"⟩ ∧
    (builder.feed text).builder.channel.notes.size = 1 ∧
    (builder.applyNamed "volume" "loud").builder = builder ∧
    (builder.applyNamed "chord" "CEG").builder = builder := by
  intro builder text
  have hread : Schedule.ofText builder.table text = [⟨0, .octave, "5"⟩, ⟨2, .note, "C"⟩,
      ⟨0, .length, "0"⟩, ⟨2, .volume, "9"⟩, ⟨4, .note, "D"⟩, ⟨5, .volumeUp, "5"⟩,
      ⟨7, .note, "E"⟩] :=
    (Schedule.ofText_table text).trans (by decide +kernel)
  obtain ⟨hbuilder, hfailure⟩ := feed_reaches builder text
  rw [hread] at hbuilder hfailure
  obtain ⟨error, hfails, hmessage⟩ : ∃ error, (builder.feed text).failure? = some error ∧
      error.message = "Duration must be at least 1, got 0" := by
    rw [hfailure]
    exact Option.map_eq_some_iff.mp (by decide +kernel)
  have hreports : ∀ event ∈ builder.reports (Schedule.ofText builder.table text),
      event.isWritable = true := by
    rw [hread]
    decide +kernel
  obtain ⟨hnamed, hfeed⟩ := feed_stops builder
  refine ⟨hreports, ⟨error, hfails, hmessage, (hfeed text hreports).2 error hfails⟩, ?_, ?_, ?_, ?_⟩
  · rw [hbuilder]
    decide +kernel
  · rw [hbuilder]
    decide +kernel
  · refine hnamed "volume" "loud" _ (fun known hknown event hevent => ?_) rfl
    obtain rfl : Kind.volume = known := Option.some.inj hknown
    cases hevent
  · refine hnamed "chord" "CEG" _ (fun known hknown => ?_) rfl
    cases hknown

end Builder
end Chiptune
