import Chiptune.Proofs.Channel.Seconds
import Chiptune.Proofs.Source.Outcome

/-!
# Compiled sources

A source that compiles has a tempo, and for each of its sections a channel that was built from the
body of that section and from nothing else (`compile_eq_ok_iff`). The tempo takes part in one thing
only: the playing time of every channel is found at it, to be reported.
-/

namespace Chiptune
namespace Source

/-- A channel is what a section compiles to, in a piece of a given tempo. -/
structure Compiled (tempo : Tempo) (s : Section) (channel : Channel) : Prop where
  built : (Channel.build Kind.table (String.ofList s.name) s.body).outcome = .ok channel
  timed : ∃ seconds, channel.seconds tempo.beats = .ok seconds

theorem Compiled.of_pulse {tempo tempo' : Tempo} {s : Section} {channel : Channel} {pulse : Float}
    (h : Compiled tempo s channel) (hpulse : tempo'.beats.toFloat = .ok pulse)
    (hpulse0 : (pulse == 0) = false) : Compiled tempo' s channel :=
  ⟨h.built, Channel.exists_seconds_of_pulse h.timed hpulse hpulse0⟩

/-- What comes of the instructions of a section. -/
def played (s : Section) : Progress :=
  (Builder.start (String.ofList s.name) Kind.table).applyAll
    ((Text.lines s.body).flatMap fun line => (Schedule.tokens line).map (·.toInstruction))

theorem compiled_iff {tempo : Tempo} {s : Section} {channel : Channel} :
    Compiled tempo s channel ↔ (played s).failure? = none ∧ (played s).builder.channel = channel ∧
      ∃ seconds, channel.seconds tempo.beats = .ok seconds := by
  have hbuilt := @Channel.build_eq_ok_iff Kind.table (String.ofList s.name) s.body channel
  rw [Schedule.ofText_table] at hbuilt
  exact ⟨fun h => ⟨(hbuilt.mp h.built).1, (hbuilt.mp h.built).2, h.timed⟩,
    fun h => ⟨hbuilt.mpr ⟨h.1, h.2.1⟩, h.2.2⟩⟩

/-- Every note of a channel has been reported, so its numbers can be written. -/
theorem Compiled.isWritable {tempo : Tempo} {s : Section} {channel : Channel}
    (h : Compiled tempo s channel) : ∀ note ∈ channel.notes, note.isWritable = true := by
  obtain ⟨hgoes, rfl, -⟩ := compiled_iff.mp h
  refine Builder.isWritable_of_mem_applyAll (fun note hnote => ?_) hgoes
  have hnone : note ∈ (#[] : Array Note) := hnote
  simp at hnone

theorem addSections_eq_ok_iff {tempo : Tempo} {found : List Section}
    {channels result : Array Channel} :
    (addSections tempo channels found).outcome = .ok result ↔
      ∃ built, List.Forall₂ (Compiled tempo) found built ∧
        result.toList = channels.toList ++ built := by
  induction found generalizing channels with
  | nil =>
    constructor
    · intro h
      cases h
      exact ⟨[], .nil, (List.append_nil _).symm⟩
    · rintro ⟨built, hbuilt, hresult⟩
      cases hbuilt
      rw [List.append_nil, Array.toList_inj] at hresult
      rw [hresult]
      rfl
  | cons s rest ih =>
    constructor
    · intro h
      obtain ⟨channel, hchannel, h⟩ := Report.outcome_bind_eq_ok.mp h
      obtain ⟨seconds, hseconds, h⟩ := Report.outcome_bind_eq_ok.mp h
      obtain ⟨-, -, h⟩ := Report.outcome_bind_eq_ok.mp h
      obtain ⟨built, hbuilt, hresult⟩ := ih.mp h
      refine ⟨channel :: built, .cons ⟨hchannel, seconds, hseconds⟩ hbuilt, ?_⟩
      rw [hresult, Array.toList_push, List.append_assoc, List.singleton_append]
    · rintro ⟨built, hbuilt, hresult⟩
      obtain ⟨channel, later, ⟨hchannel, seconds, hseconds⟩, hlater, rfl⟩ :=
        List.forall₂_cons_left_iff.mp hbuilt
      refine Report.outcome_bind_eq_ok.mpr ⟨channel, hchannel, ?_⟩
      refine Report.outcome_bind_eq_ok.mpr ⟨seconds, hseconds, ?_⟩
      refine Report.outcome_bind_eq_ok.mpr ⟨(), rfl, ih.mpr ⟨later, hlater, ?_⟩⟩
      rw [hresult, Array.toList_push, List.append_assoc, List.singleton_append]

theorem compileSections_eq_ok_iff {start score : Score} {text : List Char} :
    (compileSections start text).outcome = .ok score ↔
      ∃ built, List.Forall₂ (Compiled start.tempo) (sections text) built ∧
        score = { start with channels := built } := by
  rw [outcome_compileSections]
  constructor
  · intro h
    cases hadded : (addSections start.tempo #[] (sections text)).outcome with
    | error error =>
      rw [hadded] at h
      cases h
    | ok result =>
      rw [hadded] at h
      cases h
      obtain ⟨built, hbuilt, hresult⟩ := addSections_eq_ok_iff.mp hadded
      rw [Array.toList_empty, List.nil_append] at hresult
      exact ⟨built, hbuilt, by rw [← hresult]⟩
  · rintro ⟨built, hbuilt, rfl⟩
    have hadded : (addSections start.tempo #[] (sections text)).outcome = .ok built.toArray :=
      addSections_eq_ok_iff.mpr ⟨built, hbuilt, by simp⟩
    rw [hadded]
    rfl

/-- **What a source compiles to**: its tempo, and a channel for every section. -/
theorem compile_eq_ok_iff {settings : Settings} {text : List Char} {score : Score} :
    (compile settings text).outcome = .ok score ↔
      ∃ first, start settings (stripComments text) = .ok first ∧
        ∃ built, List.Forall₂ (Compiled first.tempo) (sections (stripComments text)) built ∧
          score = { first with channels := built } := by
  unfold compile
  rw [outcome_compileStripped, bind_eq_ok_iff]
  simp only [compileSections_eq_ok_iff]

theorem findTempo_eq_none_iff {text : List Char} :
    findTempo text = .ok none ↔ tempos text = [] := by
  unfold findTempo
  cases hlast : (tempos text).getLast? with
  | none => simpa using List.getLast?_eq_none_iff.mp hlast
  | some t =>
    have hne : tempos text ≠ [] := fun h => by simp [h] at hlast
    refine iff_of_false (fun h => ?_) hne
    cases hread : Builder.readNumber t.argument.toList <;> simp [hread, Except.map] at h

theorem start_of_no_tempo (settings : Settings) {text : List Char} (h : findTempo text = .ok none) :
    start settings text = .ok (Score.empty settings) := by
  unfold start
  rw [h]
  rfl

theorem start_of_tempo (settings : Settings) {text : List Char} {argument : String} {beats : Int}
    (hlast : (tempos text).getLast?.map (·.argument) = some argument)
    (hread : (Builder.readNumber argument.toList).toOption = some beats)
    (hpositive : (Number.whole beats).isNotPositive = false) :
    start settings text = .ok { Score.empty settings with tempo := ⟨.whole beats, hpositive⟩ } := by
  obtain ⟨t, ht, rfl⟩ := Option.map_eq_some_iff.mp hlast
  have hbeats := toOption_eq_some_iff.mp hread
  have htempo : Tempo.make (.whole beats) = .ok ⟨.whole beats, hpositive⟩ := by
    unfold Tempo.make
    rw [dif_neg (by rw [hpositive]; exact Bool.false_ne_true)]
  unfold start findTempo
  rw [ht]
  simp only [hbeats]
  show (Score.empty settings).setTempo (.whole beats) = _
  unfold Score.setTempo
  rw [htempo]
  rfl

/-- A source starts with a tempo that is a whole number of beats. -/
theorem exists_beats_start {settings : Settings} {text : List Char} {first : Score}
    (h : start settings text = .ok first) :
    first.settings = settings ∧ ∃ beats : Int, 1 ≤ beats ∧ first.tempo.beats = .whole beats := by
  unfold start at h
  obtain ⟨beats?, -, h⟩ := bind_eq_ok_iff.mp h
  cases beats? with
  | none =>
    cases h
    exact ⟨rfl, 100, by decide, rfl⟩
  | some beats =>
    obtain ⟨tempo, htempo, hset⟩ := bind_eq_ok_iff.mp h
    cases hset
    unfold Tempo.make at htempo
    split at htempo
    · cases htempo
    · rename_i hpositive
      cases htempo
      refine ⟨rfl, beats, ?_, rfl⟩
      by_contra hlow
      refine hpositive ?_
      simp only [Number.isNotPositive, Number.isNegative, Number.isZero, Number.measure,
        Bool.or_eq_true, decide_eq_true_eq, beq_iff_eq]
      omega

/-- What is known of a score that was compiled, whatever its source. -/
structure Timed (settings : Settings) (score : Score) : Prop where
  settings_eq : score.settings = settings
  tempo : ∃ beats : Int, 1 ≤ beats ∧ score.tempo.beats = .whole beats
  seconds : ∀ channel ∈ score.channels, ∃ seconds, channel.seconds score.tempo.beats = .ok seconds
  writable : ∀ channel ∈ score.channels, ∀ note ∈ channel.notes, note.isWritable = true

theorem timed_of_compile {settings : Settings} {text : List Char} {score : Score}
    (h : (compile settings text).outcome = .ok score) : Timed settings score := by
  obtain ⟨first, hfirst, built, hbuilt, rfl⟩ := compile_eq_ok_iff.mp h
  obtain ⟨hsettings, hbeats⟩ := exists_beats_start hfirst
  have hmem : ∀ channel ∈ built, ∃ s, Compiled first.tempo s channel := by
    intro channel hchannel
    obtain ⟨place, hplace, rfl⟩ := List.mem_iff_getElem.mp hchannel
    obtain ⟨hlength, hget⟩ := List.forall₂_iff_get.mp hbuilt
    exact ⟨_, hget place (by omega) hplace⟩
  refine ⟨hsettings, hbeats, fun channel hchannel => ?_, fun channel hchannel => ?_⟩
  · obtain ⟨s, hs⟩ := hmem channel hchannel
    exact hs.timed
  · obtain ⟨s, hs⟩ := hmem channel hchannel
    exact hs.isWritable

/-- The same, found out by carrying the instructions of the sections out. -/
theorem compile_of_played {settings : Settings} {text : List Char} {first : Score}
    (hstart : start settings (stripComments text) = .ok first)
    (hplayed : ∀ s ∈ sections (stripComments text), (played s).failure?.isNone = true ∧
      ((played s).builder.channel.seconds first.tempo.beats).toOption.isSome = true) :
    (compile settings text).outcome = .ok { first with
      channels := (sections (stripComments text)).map fun s => (played s).builder.channel } := by
  refine compile_eq_ok_iff.mpr ⟨first, hstart, _, ?_, rfl⟩
  rw [List.forall₂_map_right_iff, List.forall₂_same]
  intro s hs
  obtain ⟨hgoes, htimed⟩ := hplayed s hs
  exact compiled_iff.mpr
    ⟨Option.isNone_iff_eq_none.mp hgoes, rfl, isSome_toOption_iff.mp htimed⟩

end Source
end Chiptune
