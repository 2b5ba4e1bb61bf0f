import Chiptune.Proofs.Source.Comments
import Chiptune.Proofs.Source.Compiled
import Chiptune.Proofs.Source.Sections

/-!
# Sources put together

A source that begins with a channel can be put behind another source, and what they compile to is put
together as well: the channels of the one, then those of the other, and the tempo of the other if it
sets one (`compile_append`). So no channel hears of what an earlier channel has set.

Nothing is read across the seam. A colon is no `*`, so the first source cannot open a comment with it;
it ends the name and the body of the last channel, whatever these stop in the middle of; and it
stands for a space where tempos are looked for, so no `T` gets its number from behind it.
-/

namespace Chiptune
namespace Source

/-! ## Sections and tempos -/

theorem cutAtColons_append (front rest : List Char) :
    cutAtColons (front ++ ':' :: rest) =
      ((cutAtColons front).1, (cutAtColons front).2 ++ (cutAtColons (':' :: rest)).2) := by
  induction front with
  | nil => simp [cutAtColons]
  | cons c front ih =>
    rw [List.cons_append, cutAtColons, ih]
    conv_rhs => rw [cutAtColons]
    by_cases h : c = ':' <;> simp [h]

theorem header_append (front rest : List Char) : header (front ++ ':' :: rest) = header front := by
  unfold header
  rw [cutAtColons_append]

theorem sections_append (front rest : List Char) :
    sections (front ++ ':' :: rest) = sections front ++ sections (':' :: rest) := by
  unfold sections
  rw [cutAtColons_append, List.map_append]

theorem header_colon (rest : List Char) : header (':' :: rest) = [] := by
  simp [header, cutAtColons]

theorem sections_of_not_mem {text : List Char} (h : ':' ∉ text) : sections text = [] := by
  have hcut : cutAtColons text = (text, []) :=
    cutAtColons_eq_iff.mpr ⟨h, by simp, by simp [joinPieces]⟩
  rw [sections, hcut, List.map_nil]

/-- The numbers of the tempos of a source, one behind the other. -/
theorem map_argument_tempos_append (front rest : List Char) :
    (tempos (front ++ ':' :: rest)).map (·.argument) =
      (tempos front).map (·.argument) ++ (tempos (':' :: rest)).map (·.argument) := by
  have hnil : Kind.tempo.arguments [] = [] := rfl
  rw [map_argument_tempos, map_argument_tempos, map_argument_tempos, header_append,
    sections_append, header_colon, hnil, List.nil_append, List.flatMap_append, List.append_assoc]

/-- The tempo of a source is settled by the last number. -/
theorem findTempo_congr {text text' : List Char}
    (h : ((tempos text).map (·.argument)).getLast? = ((tempos text').map (·.argument)).getLast?) :
    findTempo text = findTempo text' := by
  have hread : ∀ text, findTempo text =
      match ((tempos text).map (·.argument)).getLast? with
      | none => .ok none
      | some argument => (Builder.readNumber argument.toList).map some := by
    intro text
    unfold findTempo
    rw [List.getLast?_map]
    cases (tempos text).getLast? <;> rfl
  rw [hread, hread, h]

theorem findTempo_append (front rest : List Char) :
    findTempo (front ++ ':' :: rest) =
      if tempos (':' :: rest) = [] then findTempo front else findTempo (':' :: rest) := by
  have hall := map_argument_tempos_append front rest
  split
  · rename_i hnone
    refine findTempo_congr ?_
    rw [hall, hnone, List.map_nil, List.append_nil]
  · rename_i hsome
    refine findTempo_congr ?_
    rw [hall, List.getLast?_append_of_ne_nil _ (by simpa using hsome)]

theorem start_append (settings : Settings) (front rest : List Char) :
    start settings (front ++ ':' :: rest) =
      if tempos (':' :: rest) = [] then start settings front else start settings (':' :: rest) := by
  unfold start
  rw [findTempo_append]
  split <;> rfl

/-! ## Sources -/

/-- A tempo that is set can be divided by. -/
theorem exists_pulse {settings : Settings} {text : List Char} {first : Score}
    (hruns : ShortRuns 300 text) (h : start settings text = .ok first) :
    ∃ pulse, first.tempo.beats.toFloat = .ok pulse ∧ (pulse == 0) = false := by
  obtain ⟨hzero, hset⟩ := start_outcome settings hruns (by decide)
  by_cases htempo : ZeroTempo text
  · rw [hzero htempo] at h
    cases h
  · obtain ⟨score, hscore, hpulse⟩ := hset htempo
    rw [hscore] at h
    cases h
    exact hpulse

/-- **Compiling is compositional over channel sections.** -/
theorem compile_append {settings : Settings} {text later : List Char} {first second : Score}
    (hclosed : CommentsClosed text) (hcolon : later.head? = some ':')
    (hfirst : (compile settings text).outcome = .ok first)
    (hsecond : (compile settings later).outcome = .ok second)
    (hruns : ShortRuns 300 (stripComments text)) (hruns' : ShortRuns 300 (stripComments later)) :
    ∃ score, (compile settings (text ++ later)).outcome = .ok score ∧
      score.channels = first.channels ++ second.channels ∧
      (∀ beats, findTempo (stripComments later) = .ok (some beats) →
        score.tempo = second.tempo) ∧
      (findTempo (stripComments later) = .ok none → score.tempo = first.tempo) ∧
      (':' ∉ stripComments text → findTempo (stripComments text) = .ok none → score = second) := by
  obtain ⟨rest, rfl⟩ := List.head?_eq_some_iff.mp hcolon
  have hstrip : stripComments (text ++ ':' :: rest) =
      stripComments text ++ ':' :: stripComments rest := by
    rw [stripComments_append hclosed (by simp), stripComments_colon]
  rw [stripComments_colon] at *
  obtain ⟨one, hone, built, hbuilt, rfl⟩ := compile_eq_ok_iff.mp hfirst
  obtain ⟨other, hother, built', hbuilt', rfl⟩ := compile_eq_ok_iff.mp hsecond
  rw [stripComments_colon] at hother hbuilt'
  -- The score starts with the tempo of one of the two, and the channels are timed at it anew.
  obtain ⟨chosen, hchosen, hpulse⟩ : ∃ chosen,
      chosen = (if tempos (':' :: stripComments rest) = [] then one else other) ∧
        ∃ pulse, chosen.tempo.beats.toFloat = .ok pulse ∧ (pulse == 0) = false := by
    refine ⟨_, rfl, ?_⟩
    split
    · exact exists_pulse hruns hone
    · exact exists_pulse hruns' hother
  obtain ⟨pulse, hpulse, hpulse0⟩ := hpulse
  have hstart : start settings (stripComments (text ++ ':' :: rest)) = .ok chosen := by
    rw [hstrip, start_append, hone, hother, hchosen]
    split <;> rfl
  refine ⟨{ chosen with channels := built ++ built' }, ?_, rfl, ?_, ?_, ?_⟩
  · refine compile_eq_ok_iff.mpr ⟨chosen, hstart, built ++ built', ?_, rfl⟩
    rw [hstrip, sections_append]
    have htimed : ∀ {tempo : Tempo} {s : Section} {channel : Channel},
        Compiled tempo s channel → Compiled chosen.tempo s channel :=
      fun h => h.of_pulse hpulse hpulse0
    exact List.rel_append (hbuilt.imp fun _ _ => htimed) (hbuilt'.imp fun _ _ => htimed)
  · intro beats hbeats
    have hne : tempos (':' :: stripComments rest) ≠ [] := fun h => by
      rw [findTempo_eq_none_iff.mpr h] at hbeats
      cases hbeats
    rw [hchosen, if_neg hne]
  · intro hnone
    rw [hchosen, if_pos (findTempo_eq_none_iff.mp hnone)]
  · intro hheader hnone
    rw [sections_of_not_mem hheader] at hbuilt
    cases hbuilt
    rw [start_of_no_tempo settings hnone] at hone
    cases hone
    rw [hchosen]
    split
    · rename_i hquiet
      rw [start_of_no_tempo settings (findTempo_eq_none_iff.mpr hquiet)] at hother
      cases hother
      rfl
    · rfl

/-- The seam cuts through a `T` and a number; the channel in front leaves a length of zero behind. -/
theorem compile_append_seam :
    let settings : Settings := ⟨.whole 8, .whole 0, .whole 0, .whole 0, rfl, rfl, rfl, rfl⟩
    ∃ first second score,
      (compile settings "/*:*/T90:a 8CL0 T".toList).outcome = .ok first ∧
        (compile settings ":5\nD".toList).outcome = .ok second ∧
        (compile settings ("/*:*/T90:a 8CL0 T".toList ++ ":5\nD".toList)).outcome = .ok score ∧
        score.channels = first.channels ++ second.channels ∧ score.tempo = first.tempo := by
  intro settings
  have hinside : ¬ ['*', '/'] <:+: [':'] := by decide
  have hclosed : CommentsClosed "/*:*/T90:a 8CL0 T".toList :=
    .comment hinside (.of_not_mem (by decide))
  have hquiet : findTempo (stripComments ":5\nD".toList) = .ok none :=
    findTempo_eq_none_iff.mpr (by decide +kernel)
  have hstart := @start_of_tempo settings (stripComments "/*:*/T90:a 8CL0 T".toList) "90" 90
    (by decide +kernel) (by decide +kernel) rfl
  have hfirst := compile_of_played hstart (by decide +kernel)
  have hsecond := compile_of_played (start_of_no_tempo settings hquiet) (by decide +kernel)
  have hshort : ∀ {text : List Char}, text.length ≤ 300 → ShortRuns 300 text :=
    fun h run hrun _ => hrun.length_le.trans h
  obtain ⟨score, hscore, hchannels, -, htempo, -⟩ := compile_append hclosed rfl hfirst hsecond
    (hshort (by decide +kernel)) (hshort (by decide +kernel))
  exact ⟨_, _, score, hfirst, hsecond, hscore, hchannels, htempo hquiet⟩

end Source
end Chiptune
