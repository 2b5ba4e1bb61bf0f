import Chiptune.Proofs.Channel.Failure
import Chiptune.Proofs.Source.Commented
import Chiptune.Proofs.Source.Concatenation

/-!
# Names are no music

A name may look like music: `:T1`, `:o3c` and `:16B` begin channels and set no tempo, move no octave
and play no note. A source whose channels get other names compiles to the same tempo and the same
notes, or fails for the same reason, and reports the same on the way, but for the names
(`compile_names`).

A builder hands the name of its channel on and never looks at it. So it does the same under another
name, step by step and over a whole text, and reports the same under that name
(`Builder.feed_named`). Two sources are compared by leaving the names out of what both compile to.
In the text, a name ends where its body begins, since no body begins with a part of a word; and the
search for a tempo sees a space where the name stands.
-/

namespace Chiptune

/-! ## Under another name -/

/-- The event as a channel of that name reports it. -/
def Event.named (name : String) : Event → Event
  | tempoIgnored argument _ => tempoIgnored argument name
  | channelCompiled _ notes seconds => channelCompiled name notes seconds
  | noteSilenced _ cause note => noteSilenced name cause note
  | event => event

theorem Event.isWritable_named (name : String) (event : Event) :
    (event.named name).isWritable = event.isWritable := by
  cases event <;> rfl

def Channel.named (name : String) (channel : Channel) : Channel := { channel with name }

def Builder.named (name : String) (builder : Builder) : Builder :=
  { builder with channel := builder.channel.named name }

/-- How far a builder got, told as if its channel had that name. -/
def Progress.named (name : String) (progress : Progress) : Progress :=
  ⟨progress.builder.named name, progress.log.map (Event.named name), progress.failure?⟩

/-- Work in two parts goes on under another name as its second part does. -/
theorem Progress.named_andThen {name : String} {next : Builder → Progress}
    (hnext : ∀ builder : Builder, next (builder.named name) = (next builder).named name)
    (progress : Progress) :
    (progress.named name).andThen next = (progress.andThen next).named name := by
  obtain ⟨builder, log, failure?⟩ := progress
  cases failure? with
  | some error => rfl
  | none =>
    simp only [andThen, named, hnext, List.map_append]

namespace Builder

theorem effect_named (name : String) (builder : Builder) (kind : Kind) (argument : String) :
    (builder.named name).effect kind argument =
      (builder.effect kind argument).map fun done => (done.1.named name, done.2.named name) := by
  cases kind with
  | timbre | octaveUp | octaveDown | tempo => rfl
  | volume | volumeUp | volumeDown | octave | length =>
    unfold effect
    cases readNumber argument.toList <;> rfl
  | timedNote | note =>
    unfold effect
    show (readNote builder.context argument >>= _) =
      Except.map _ (readNote builder.context argument >>= _)
    cases readNote builder.context argument <;> rfl

/-- **The step.** An instruction does the same under another name. -/
theorem apply_named (name : String) (builder : Builder) (kind : Kind) (argument : String) :
    (builder.named name).apply kind argument = (builder.apply kind argument).named name := by
  rw [apply_eq, apply_eq, effect_named]
  cases builder.effect kind argument with
  | error error => rfl
  | ok done =>
    show (done.1.named name).tell (done.2.named name) = (done.1.tell done.2).named name
    unfold tell
    rw [Event.isWritable_named]
    split <;> rfl

theorem applyAll_named (name : String) (builder : Builder) (instructions : List Instruction) :
    (builder.named name).applyAll instructions = (builder.applyAll instructions).named name := by
  induction instructions generalizing builder with
  | nil => rfl
  | cons i rest ih =>
    rw [applyAll, applyAll, apply_named, Progress.named_andThen ih]

theorem feedLine_named (name : String) (builder : Builder) (line : List Char) :
    (builder.named name).feedLine line = (builder.feedLine line).named name := by
  unfold feedLine
  rw [← Progress.named_andThen fun next => applyAll_named name next _]
  -- What a line matches is reported without a name.
  simp only [Progress.named, List.map_map]
  rfl

theorem feedLines_named (name : String) (builder : Builder) (lines : List (List Char)) :
    (builder.named name).feedLines lines = (builder.feedLines lines).named name := by
  induction lines generalizing builder with
  | nil => rfl
  | cons line rest ih =>
    rw [feedLines, feedLines, feedLine_named, Progress.named_andThen ih]

/-- **The run.** A text is read in the same way under another name. -/
theorem feed_named (name : String) (builder : Builder) (text : List Char) :
    (builder.named name).feed text = (builder.feed text).named name :=
  feedLines_named name builder (Text.lines text)

end Builder

/-! ## Reports -/

namespace Report

variable {α β γ δ : Type}

/-- The report of something else, with that name wherever it names a channel. -/
def renamed (f : α → β) (name : String) (report : Report α) : Report β :=
  ⟨report.outcome.map f, report.log.map (Event.named name)⟩

theorem renamed_bind {f : α → β} {g : γ → δ} {name : String} {next : α → Report γ}
    {next' : β → Report δ} (hnext : ∀ value, next' (f value) = (next value).renamed g name)
    (report : Report α) :
    report.renamed f name >>= next' = (report >>= next).renamed g name := by
  cases h : report.outcome with
  | error error =>
    rw [bind_of_error h, bind_of_error (by rw [renamed, h]; rfl)]
    rfl
  | ok value =>
    rw [bind_of_ok h, bind_of_ok (by rw [renamed, h]; rfl), hnext]
    simp only [renamed, List.map_append]

theorem renamed_tell (name : String) (event : Event) :
    (tell event).renamed id name = tell (event.named name) := by
  unfold tell
  rw [Event.isWritable_named]
  split <;> rfl

end Report

/-- A text builds the same channel under any name. -/
theorem Channel.build_named (table : List Kind) (name before : String) (text : List Char) :
    build table name text = (build table before text).renamed (named name) name := by
  have hfeed := Builder.feed_named name (Builder.start before table) text
  have hstart : (Builder.start before table).named name = Builder.start name table := rfl
  rw [hstart] at hfeed
  unfold build
  rw [hfeed]
  simp only [Progress.named]
  split <;> rfl

theorem Channel.name_of_build {table : List Kind} {name : String} {text : List Char}
    {channel : Channel} (h : (build table name text).outcome = .ok channel) :
    channel.name = name := by
  rw [build_named table name name text] at h
  cases hbuilt : (build table name text).outcome with
  | error error =>
    simp only [Report.renamed, hbuilt, Except.map] at h
    cases h
  | ok built =>
    simp only [Report.renamed, hbuilt, Except.map] at h
    cases h
    rfl

theorem map_eq_error_iff {α β : Type} {f : α → β} {work : Except Error α} {error : Error} :
    work.map f = .error error ↔ work = .error error := by
  cases work <;> simp [Except.map]

/-- The score without the names of its channels. -/
def Score.unnamed (score : Score) : Score :=
  { score with channels := score.channels.map (Channel.named "") }

theorem Score.notes_unnamed (score : Score) :
    score.unnamed.channels.map (·.notes) = score.channels.map (·.notes) := by
  rw [unnamed, List.map_map]
  rfl

namespace Source

/-! ## Sections -/

/-- The section without its name. -/
def Section.unnamed (s : Section) : Section := ⟨[], s.body⟩

theorem addSections_unnamed (tempo : Tempo) (channels : Array Channel) (found : List Section) :
    addSections tempo (channels.map (Channel.named "")) (found.map Section.unnamed) =
      (addSections tempo channels found).renamed (Array.map (Channel.named "")) "" := by
  induction found generalizing channels with
  | nil => rfl
  | cons s rest ih =>
    rw [List.map_cons, addSections, addSections]
    show Channel.build Kind.table "" s.body >>= _ = _
    rw [Channel.build_named Kind.table "" (String.ofList s.name)]
    refine Report.renamed_bind (fun channel => ?_) _
    show liftM (channel.seconds tempo.beats) >>= _ = _
    cases channel.seconds tempo.beats with
    | error error => rfl
    | ok seconds =>
      rw [Report.liftM_ok_bind, Report.liftM_ok_bind]
      have htell := Report.renamed_tell ""
        (.channelCompiled (String.ofList s.name) channel.notes.size seconds)
      show Report.tell (.channelCompiled "" channel.notes.size seconds) >>= _ = _
      rw [← show _ = Report.tell (.channelCompiled "" channel.notes.size seconds) from htell]
      refine Report.renamed_bind (fun _ => ?_) _
      show addSections tempo ((channels.map (Channel.named "")).push (channel.named "")) _ = _
      rw [← ih, Array.map_push]

/-- What is left to do when the channels are there. -/
def finish (start : Score) (channels : Array Channel) : Report Score := do
  let score := { start with channels := channels.toList }
  if score.channels.isEmpty then
    Report.tell .noChannels
  return score

theorem finish_unnamed (start : Score) (channels : Array Channel) :
    finish start (channels.map (Channel.named "")) =
      (finish start channels).renamed Score.unnamed "" := by
  unfold finish
  rw [Array.toList_map]
  cases channels.toList with
  | nil => rfl
  | cons channel rest => rfl

/-- Sources with the same bodies in the same order compile alike, from the same score on. -/
theorem compileSections_unnamed (start : Score) {text text' : List Char}
    (h : (sections text).map Section.unnamed = (sections text').map Section.unnamed) :
    (compileSections start text).renamed Score.unnamed "" =
      (compileSections start text').renamed Score.unnamed "" := by
  have hcompile : ∀ text, (compileSections start text).renamed Score.unnamed "" =
      addSections start.tempo #[] ((sections text).map Section.unnamed) >>= finish start := by
    intro text
    have hadded := addSections_unnamed start.tempo #[] (sections text)
    rw [Array.map_empty] at hadded
    rw [hadded]
    exact (Report.renamed_bind (finish_unnamed start) _).symm
  rw [hcompile, hcompile, h]

/-- The tempo is what the header and the bodies say. -/
theorem findTempo_unnamed {text text' : List Char} (hheader : header text = header text')
    (h : (sections text).map Section.unnamed = (sections text').map Section.unnamed) :
    findTempo text = findTempo text' := by
  have hbodies : ∀ text, ((sections text).flatMap fun s => Kind.tempo.arguments s.body) =
      ((sections text).map Section.unnamed).flatMap fun s => Kind.tempo.arguments s.body := by
    intro text
    rw [List.flatMap_map]
    rfl
  refine findTempo_congr (congrArg _ ?_)
  rw [map_argument_tempos, map_argument_tempos, hheader, hbodies, hbodies, h]

theorem compileStripped_unnamed (settings : Settings) {text text' : List Char}
    (hheader : header text = header text')
    (h : (sections text).map Section.unnamed = (sections text').map Section.unnamed) :
    (compileStripped settings text).renamed Score.unnamed "" =
      (compileStripped settings text').renamed Score.unnamed "" := by
  have hstart : start settings text = start settings text' := by
    unfold start
    rw [findTempo_unnamed hheader h]
  rw [compileStripped_eq_bind, compileStripped_eq_bind, hstart]
  cases start settings text' with
  | error error => rfl
  | ok score =>
    rw [Report.liftM_ok_bind, Report.liftM_ok_bind]
    exact compileSections_unnamed score h

/-- The channels of a score go by the names of the sections. -/
theorem names_of_compile {settings : Settings} {text : List Char} {score : Score}
    (h : (compile settings text).outcome = .ok score) :
    score.channels.map (·.name) =
      (sections (stripComments text)).map fun s => String.ofList s.name := by
  obtain ⟨first, -, built, hbuilt, rfl⟩ := compile_eq_ok_iff.mp h
  show built.map (·.name) = _
  clear h
  generalize sections (stripComments text) = found at hbuilt ⊢
  induction hbuilt with
  | nil => rfl
  | cons hchannel _ ih =>
    rw [List.map_cons, List.map_cons, Channel.name_of_build hchannel.built, ih]

/-! ## The text -/

/-- A text in which no channel and no comment begins. -/
structure Plain (text : List Char) : Prop where
  colon_not_mem : ':' ∉ text
  lacks : Lacks '/' '*' text

/-- Each of the bodies can stand behind any name. -/
def Bodies (bodies : List (List Char)) : Prop :=
  ∀ body ∈ bodies, Plain body ∧ StopsAt Text.isWord body

/-- As many names as there are bodies. -/
structure NamesOf (bodies names : List (List Char)) : Prop where
  length_eq : names.length = bodies.length
  isWord : ∀ name ∈ names, ∀ c ∈ name, Text.isWord c = true

/-- The source with a header and bodies behind the names of their channels. -/
def withNames (front : List Char) (bodies names : List (List Char)) : List Char :=
  front ++ ((names.zip bodies).map fun part => ':' :: (part.1 ++ part.2)).flatten

section

variable {front : List Char} {bodies names : List (List Char)}

theorem withNames_eq_joinPieces : withNames front bodies names =
    joinPieces front ((names.zip bodies).map fun part => part.1 ++ part.2) := by
  unfold withNames joinPieces
  rw [List.flatMap_def, List.map_map]
  rfl

/-- No comment begins in a source put together of plain texts, not even across its colons. -/
theorem stripComments_joinPieces {front : List Char} {pieces : List (List Char)}
    (hfront : Lacks '/' '*' front) (hpieces : ∀ piece ∈ pieces, Lacks '/' '*' piece) :
    stripComments (joinPieces front pieces) = joinPieces front pieces := by
  induction pieces generalizing front with
  | nil =>
    rw [joinPieces, List.flatMap_nil, List.append_nil, stripComments_of_lacks hfront]
  | cons piece rest ih =>
    obtain ⟨hpiece, hrest⟩ := List.forall_mem_cons.mp hpieces
    rw [joinPieces_cons, stripComments_append (.of_lacks hfront) (by simp),
      stripComments_of_lacks hfront, stripComments_colon, ih hpiece hrest]

theorem slash_not_mem_name {name : List Char} (h : ∀ c ∈ name, Text.isWord c = true) :
    '/' ∉ name := fun hmem => absurd (h '/' hmem) (by decide +kernel)

theorem stripComments_withNames (hfront : Plain front) (hbodies : Bodies bodies)
    (hnames : NamesOf bodies names) :
    stripComments (withNames front bodies names) = withNames front bodies names := by
  rw [withNames_eq_joinPieces]
  refine stripComments_joinPieces hfront.lacks (List.forall_mem_map.mpr fun part hpart => ?_)
  obtain ⟨hname, hbody⟩ := List.of_mem_zip hpart
  exact .append_of_not_mem (slash_not_mem_name (hnames.isWord _ hname)) (hbodies _ hbody).1.lacks

theorem cutAtColons_withNames (hfront : Plain front) (hbodies : Bodies bodies)
    (hnames : NamesOf bodies names) :
    cutAtColons (withNames front bodies names) =
      (front, (names.zip bodies).map fun part => part.1 ++ part.2) := by
  rw [withNames_eq_joinPieces]
  refine cutAtColons_joinPieces hfront.colon_not_mem (List.forall_mem_map.mpr fun part hpart => ?_)
  obtain ⟨hname, hbody⟩ := List.of_mem_zip hpart
  exact List.not_mem_append (colon_not_mem_name (hnames.isWord _ hname))
    (hbodies _ hbody).1.colon_not_mem

/-- Names and bodies are cut apart again. -/
theorem sections_withNames (hfront : Plain front) (hbodies : Bodies bodies)
    (hnames : NamesOf bodies names) :
    sections (withNames front bodies names) =
      (names.zip bodies).map fun part => ⟨part.1, part.2⟩ := by
  unfold sections
  rw [cutAtColons_withNames hfront hbodies hnames, List.map_map]
  refine List.map_congr_left fun part hpart => ?_
  obtain ⟨hname, hbody⟩ := List.of_mem_zip hpart
  exact Section.ofPiece_eq_iff.mpr ⟨hnames.isWord _ hname, (hbodies _ hbody).2, rfl⟩

theorem unnamed_sections_withNames (hfront : Plain front) (hbodies : Bodies bodies)
    (hnames : NamesOf bodies names) :
    (sections (withNames front bodies names)).map Section.unnamed =
      bodies.map fun body => ⟨[], body⟩ := by
  rw [sections_withNames hfront hbodies hnames, List.map_map]
  conv_rhs => rw [← List.map_snd_zip hnames.length_eq.ge, List.map_map]
  rfl

theorem names_of_withNames (hfront : Plain front) (hbodies : Bodies bodies)
    (hnames : NamesOf bodies names) {settings : Settings} {score : Score}
    (h : (compile settings (withNames front bodies names)).outcome = .ok score) :
    score.channels.map (·.name) = names.map String.ofList := by
  rw [names_of_compile h, stripComments_withNames hfront hbodies hnames,
    sections_withNames hfront hbodies hnames, List.map_map]
  conv_rhs => rw [← List.map_fst_zip hnames.length_eq.le, List.map_map]
  rfl

end

/-- **Names are no music.** Behind whatever names, the bodies compile to the same notes at the same
tempo, or fail alike; and each channel goes by its name. -/
theorem compile_names (settings : Settings) {front : List Char}
    {bodies names names' : List (List Char)} (hfront : Plain front) (hbodies : Bodies bodies)
    (hnames : NamesOf bodies names) (hnames' : NamesOf bodies names') :
    let one := compile settings (withNames front bodies names)
    let other := compile settings (withNames front bodies names')
    (∀ error, one.outcome = .error error ↔ other.outcome = .error error) ∧
      (∀ score, one.outcome = .ok score → ∃ score', other.outcome = .ok score' ∧
        score'.tempo = score.tempo ∧ score'.settings = score.settings ∧
          score'.channels.map (·.notes) = score.channels.map (·.notes) ∧
            score.channels.map (·.name) = names.map String.ofList ∧
              score'.channels.map (·.name) = names'.map String.ofList) ∧
      one.log.map (Event.named "") = other.log.map (Event.named "") := by
  intro one other
  have hheaders :
      header (withNames front bodies names) = header (withNames front bodies names') := by
    unfold header
    rw [cutAtColons_withNames hfront hbodies hnames, cutAtColons_withNames hfront hbodies hnames']
  have hsections := (unnamed_sections_withNames hfront hbodies hnames).trans
    (unnamed_sections_withNames hfront hbodies hnames').symm
  have hsame : one.renamed Score.unnamed "" = other.renamed Score.unnamed "" := by
    simp only [one, other, compile, stripComments_withNames hfront hbodies hnames,
      stripComments_withNames hfront hbodies hnames']
    exact compileStripped_unnamed settings hheaders hsections
  have houtcome : one.outcome.map Score.unnamed = other.outcome.map Score.unnamed :=
    congrArg Report.outcome hsame
  refine ⟨fun error => ?_, fun score hscore => ?_, congrArg Report.log hsame⟩
  · rw [← map_eq_error_iff (f := Score.unnamed), houtcome, map_eq_error_iff]
  · rw [hscore] at houtcome
    cases hother : other.outcome with
    | error error =>
      rw [hother] at houtcome
      cases houtcome
    | ok score' =>
      rw [hother] at houtcome
      have hunnamed : score.unnamed = score'.unnamed := Except.ok.inj houtcome
      refine ⟨score', rfl, (congrArg Score.tempo hunnamed).symm,
        (congrArg Score.settings hunnamed).symm, ?_, ?_, ?_⟩
      · rw [← Score.notes_unnamed, ← hunnamed, Score.notes_unnamed]
      · exact names_of_withNames hfront hbodies hnames hscore
      · exact names_of_withNames hfront hbodies hnames' hother

/-- Names that look like a tempo, like an octave and a note, and like a note with its duration; and
in the other source no name, a letter, and a tempo in digits of another script. The last tempo of the
music is 3. -/
theorem compile_names_like_music :
    let settings : Settings := ⟨.whole 8, .whole 0, .whole 0, .whole 0, rfl, rfl, rfl, rfl⟩
    let one := compile settings "T90:T1-8C:o3c:16B\nT٣D".toList
    let other := compile settings "T90:-8C:x:T٥\nT٣D".toList
    one.log.map (Event.named "") = other.log.map (Event.named "") ∧
      ∃ score score', one.outcome = .ok score ∧ other.outcome = .ok score' ∧
        score'.tempo = score.tempo ∧ score.tempo.beats = .whole 3 ∧
          score'.channels.map (·.notes) = score.channels.map (·.notes) ∧
            score.channels.map (·.name) = ["T1", "o3c", "16B"] ∧
              score'.channels.map (·.name) = ["", "x", "T٥"] := by
  intro settings one other
  have hplain : ∀ text : List Char, ':' ∉ text ∧ ¬ ['/', '*'] <:+: text → Plain text :=
    fun text h => ⟨h.1, h.2⟩
  have hfront : Plain "T90".toList := hplain _ (by decide)
  have hbodies : Bodies ["-8C".toList, [], "\nT٣D".toList] := by
    have hhyphen : Text.isWord '-' = false := by decide +kernel
    have hfeed : Text.isWord '\n' = false := by decide +kernel
    simp only [Bodies, List.forall_mem_cons, List.not_mem_nil, false_implies, implies_true]
    refine ⟨⟨hplain _ (by decide), ?_⟩, ⟨hplain _ (by decide), ?_⟩,
      ⟨hplain _ (by decide), ?_⟩, trivial⟩
    · rintro c ⟨⟩
      exact hhyphen
    · rintro c ⟨⟩
    · rintro c ⟨⟩
      exact hfeed
  have hword : ∀ {names : List (List Char)}, names.all (·.all Text.isWord) = true →
      ∀ name ∈ names, ∀ c ∈ name, Text.isWord c = true := by
    simp [List.all_eq_true]
  have hnames : NamesOf ["-8C".toList, [], "\nT٣D".toList]
      ["T1".toList, "o3c".toList, "16B".toList] := ⟨rfl, hword (by decide +kernel)⟩
  have hnames' : NamesOf ["-8C".toList, [], "\nT٣D".toList]
      [[], "x".toList, "T٥".toList] := ⟨rfl, hword (by decide +kernel)⟩
  have hstart := @start_of_tempo settings (stripComments "T90:T1-8C:o3c:16B\nT٣D".toList) "٣" 3
    (by decide +kernel) (by decide +kernel) rfl
  have hone := compile_of_played hstart (by decide +kernel)
  obtain ⟨-, hsame, hlog⟩ := compile_names settings hfront hbodies hnames hnames'
  obtain ⟨score', hother, htempo, -, hnotes, hnames, hnames'⟩ := hsame _ hone
  exact ⟨hlog, _, score', hone, hother, htempo, rfl, hnotes, hnames, hnames'⟩

end Source
end Chiptune
