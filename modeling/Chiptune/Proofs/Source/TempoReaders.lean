import Chiptune.Source.Comment
import Chiptune.Source.Tempo
import Chiptune.Proofs.Channel.Meaning
import Chiptune.Proofs.Instruction.Separator
import Chiptune.Proofs.Text.Lines

/-!
# The two readers of tempo

A tempo is read twice. `Source.findTempo` searches the whole source, with the names of channels
blanked out, and what it finds sets the tempo of the score. The schedule of a channel reads the same
text line by line, and passes over what it takes for a tempo. One would like the first to set only
what the second has recognised (`scheduledTempo?`).

It does not. The search knows nothing of the other instructions, and the name of a timbre may
contain a `T` and a number: `@(T5)` sets the tempo to 5 (`findTempo_timbre_name`). That is the
only place where they can differ on what is a tempo, so the two agree exactly where the last `T`
and number does not stand in such a name, or stands there and spells the number that counts anyway;
and can be read at all, since a number of more than 4300 digits cannot
(`findTempo_eq_scheduledTempo?_iff`).
-/

namespace Chiptune
namespace Source

/-! ## What there is to be read -/

/-- The lines of all channels, in order. -/
def channelLines (text : List Char) : List (List Char) :=
  (sections text).flatMap fun s => Text.lines s.body

/-- The tempo instructions in the schedules of all channels, in order. -/
def scheduledTempos (text : List Char) : List Instruction :=
  ((channelLines text).flatMap (Schedule.ofLine Kind.table)).filter (·.kind == .tempo)

/-- The number of the last tempo that the schedules of the channels hold. -/
def scheduledTempo? (text : List Char) : Option Int :=
  (scheduledTempos text).getLast?.map Instruction.amount

/-- A `T` and a number in a line of a channel, whatever it is part of there. -/
structure TempoText where
  line : List Char
  place : Occurrence
  deriving DecidableEq, Repr

namespace TempoText

/-- The number, behind the `T`. -/
def amount (t : TempoText) : Int := t.place.amount

/-- Whether the text stands in the name of a timbre. -/
def InName (t : TempoText) : Prop := ∃ a ∈ Kind.timbre.occurrences t.line, a.Covers t.place.offset

instance (t : TempoText) : Decidable t.InName :=
  inferInstanceAs (Decidable (∃ a ∈ Kind.timbre.occurrences t.line, a.Covers t.place.offset))

/-- Whether the number is short enough to be read. -/
def Readable (t : TempoText) : Prop := t.place.argument.toList.length ≤ Decimal.maxDigits

instance (t : TempoText) : Decidable t.Readable :=
  inferInstanceAs (Decidable (t.place.argument.toList.length ≤ Decimal.maxDigits))

end TempoText

/-- Every `T` and a number in the lines of the channels, in order. -/
def tempoTexts (text : List Char) : List TempoText :=
  (channelLines text).flatMap fun line => (Kind.tempo.occurrences line).map (TempoText.mk line)

/-! ## What the schedules hold -/

/-- The schedules hold what stands outside the names of timbres. -/
theorem scheduledTempos_eq (text : List Char) :
    scheduledTempos text =
      ((tempoTexts text).filter fun t => decide (¬ t.InName)).map (·.place.toInstruction) := by
  unfold scheduledTempos tempoTexts
  rw [List.filter_flatMap, List.filter_flatMap, List.map_flatMap]
  -- Line by line, and nothing but a timbre can hide a tempo from the schedule.
  refine List.flatMap_congr fun line _ => ?_
  rw [Schedule.filter_ofLine_table (by decide) (by decide), List.filter_map, List.map_map]
  refine congrArg (List.map _) (List.filter_congr fun o _ => ?_)
  simp [TempoText.InName]

/-! ## What the search finds -/

/-- A search of a whole body is a search of its lines. -/
theorem arguments_tempo_body (body : List Char) :
    (Text.lines body).flatMap Kind.tempo.arguments = Kind.tempo.arguments body :=
  Text.flatMap_lines rfl
    (fun run _ rest hc => Kind.arguments_append_separator (isSeparator_of_isLineBreak hc) run rest)
    body

/-- A blank in place of a name keeps what is in front of it from what is behind. -/
theorem arguments_tempo_blankNames (front : List Char) (found : List Section) :
    Kind.tempo.arguments (front ++ found.flatMap fun s => ' ' :: s.body) =
      Kind.tempo.arguments front ++ found.flatMap fun s => Kind.tempo.arguments s.body := by
  induction found generalizing front with
  | nil => simp
  | cons s later ih =>
    rw [List.flatMap_cons, List.flatMap_cons, List.cons_append,
      Kind.arguments_append_separator isSeparator_blank, ih]

/-- The search finds what header and bodies hold, one behind the other, and nothing of a name. -/
theorem map_argument_tempos (text : List Char) :
    (tempos text).map (·.argument) = Kind.tempo.arguments (header text) ++
      (sections text).flatMap fun s => Kind.tempo.arguments s.body :=
  arguments_tempo_blankNames (header text) (sections text)

/-- **The search finds the texts of the channels' lines**, where the header has none. -/
theorem arguments_tempos {text : List Char} (hheader : Kind.tempo.occurrences (header text) = []) :
    (tempos text).map (·.argument) = (tempoTexts text).map (·.place.argument) := by
  have hfront : Kind.tempo.arguments (header text) = [] := by
    unfold Kind.arguments
    rw [hheader]
    rfl
  unfold tempoTexts channelLines
  rw [map_argument_tempos, hfront, List.nil_append, List.flatMap_assoc, List.map_flatMap]
  refine List.flatMap_congr fun s _ => ?_
  rw [← arguments_tempo_body, List.map_flatMap]
  refine List.flatMap_congr fun line _ => ?_
  rw [List.map_map]
  rfl

/-- What a text is read as. -/
theorem TempoText.readNumber {text : List Char} {t : TempoText} (ht : t ∈ tempoTexts text) :
    (t.Readable → Builder.readNumber t.place.argument.toList = .ok t.amount) ∧
      (¬ t.Readable → ∃ error, Builder.readNumber t.place.argument.toList = .error error) := by
  obtain ⟨line, -, hline⟩ := List.mem_flatMap.mp ht
  obtain ⟨place, hplace, rfl⟩ := List.mem_map.mp hline
  obtain ⟨hkind, hmatch, -⟩ := Schedule.mem_occurrences_iff.mp hplace
  obtain ⟨token, -, -, hshape, -, -⟩ := hmatch.shape
  obtain ⟨hne, hdigits⟩ := hshape.digits_of_numberMarks (by rw [hkind]; decide)
  unfold Readable
  rw [Builder.readNumber_of_digits hne hdigits]
  exact ⟨fun hshort => if_neg (Nat.not_lt.mpr hshort),
    fun hlong => ⟨_, if_pos (Nat.lt_of_not_le hlong)⟩⟩

/-- The search reads the last of the texts. -/
theorem findTempo_eq {text : List Char} (hheader : Kind.tempo.occurrences (header text) = []) :
    findTempo text =
      match (tempoTexts text).getLast? with
      | none => .ok none
      | some t => (Builder.readNumber t.place.argument.toList).map some := by
  have hlast : (tempos text).getLast?.map (·.argument) =
      (tempoTexts text).getLast?.map (·.place.argument) := by
    rw [← List.getLast?_map, ← List.getLast?_map, arguments_tempos hheader]
  unfold findTempo
  cases hfound : (tempos text).getLast? with
  | none =>
    rw [hfound] at hlast
    rw [Option.map_eq_none_iff.mp hlast.symm]
  | some directive =>
    rw [hfound] at hlast
    obtain ⟨t, ht, hargument⟩ := Option.map_eq_some_iff.mp hlast.symm
    rw [ht]
    show (Builder.readNumber directive.argument.toList).map some =
      (Builder.readNumber t.place.argument.toList).map some
    rw [hargument]

/-! ## Where they agree -/

/-- **The two readers agree exactly where the last text says what the schedules say**: it can be
read, and it stands outside the names of timbres or spells the same number as the last one that
does. -/
theorem findTempo_eq_scheduledTempo?_iff {text : List Char}
    (hheader : Kind.tempo.occurrences (header text) = []) :
    findTempo text = .ok (scheduledTempo? text) ↔
      ∀ t, (tempoTexts text).getLast? = some t →
        t.Readable ∧ (t.InName → ∃ t' : TempoText,
          ((tempoTexts text).filter fun t => decide (¬ t.InName)).getLast? = some t' ∧
            t'.amount = t.amount) := by
  have hscheduled : scheduledTempo? text =
      ((tempoTexts text).filter fun t => decide (¬ t.InName)).getLast?.map TempoText.amount := by
    unfold scheduledTempo?
    rw [scheduledTempos_eq, List.getLast?_map, Option.map_map]
    rfl
  rw [findTempo_eq hheader, hscheduled]
  cases hlast : (tempoTexts text).getLast? with
  | none => simp [List.getLast?_eq_none_iff.mp hlast]
  | some t =>
    -- The search reads this text or fails on it; the schedules may have passed over it.
    obtain ⟨before, htexts⟩ := List.getLast?_eq_some_iff.mp hlast
    obtain ⟨hok, herror⟩ := TempoText.readNumber (List.mem_of_getLast? hlast)
    simp only [Option.some.injEq, forall_eq']
    by_cases hread : t.Readable
    · rw [hok hread]
      by_cases hname : t.InName
      · simp only [hread, hname, true_and, forall_const]
        rw [← Option.map_eq_some_iff, eq_comm]
        simp [Except.map]
      · simp [htexts, hname, hread, Except.map]
    · obtain ⟨error, herror⟩ := herror hread
      simp [herror, hread, Except.map]

/-- A tempo repeated in the name of a timbre does no harm. -/
theorem findTempo_eq_scheduledTempo?_repeated :
    Kind.tempo.occurrences (header ":a\nT5@(T5)C".toList) = [] ∧
      findTempo ":a\nT5@(T5)C".toList = .ok (scheduledTempo? ":a\nT5@(T5)C".toList) := by
  have hheader : Kind.tempo.occurrences (header ":a\nT5@(T5)C".toList) = [] := by decide +kernel
  refine ⟨hheader, (findTempo_eq_scheduledTempo?_iff hheader).mpr fun t ht => ?_⟩
  have hlast : (tempoTexts ":a\nT5@(T5)C".toList).getLast? =
      some ⟨"T5@(T5)C".toList, ⟨⟨4, .tempo, "5"⟩, 2⟩⟩ := by decide +kernel
  rw [hlast] at ht
  obtain rfl := Option.some.inj ht
  exact ⟨by decide +kernel, fun _ => ⟨⟨"T5@(T5)C".toList, ⟨⟨0, .tempo, "5"⟩, 2⟩⟩,
    by decide +kernel, by decide +kernel⟩⟩

/-- **A timbre sets the tempo.** The schedule of the one channel is a timbre and a note, and the
tempo of the score is in the name of the timbre. -/
theorem findTempo_timbre_name :
    stripComments ":a\n@(T5)C".toList = ":a\n@(T5)C".toList ∧
      Kind.tempo.occurrences (header ":a\n@(T5)C".toList) = [] ∧
        findTempo ":a\n@(T5)C".toList = .ok (some 5) ∧
          scheduledTempo? ":a\n@(T5)C".toList = none := by
  refine ⟨by decide +kernel, by decide +kernel, ?_, ?_⟩
  · have hfound : (findTempo ":a\n@(T5)C".toList).toOption = some (some 5) := by decide +kernel
    cases h : findTempo ":a\n@(T5)C".toList with
    | ok found =>
      rw [h] at hfound
      exact congrArg _ (Option.some.inj hfound)
    | error error =>
      rw [h] at hfound
      cases hfound
  · unfold scheduledTempo?
    rw [scheduledTempos_eq]
    decide +kernel

end Source
end Chiptune
