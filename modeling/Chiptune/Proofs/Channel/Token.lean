import Chiptune.Proofs.Channel.Refusal

/-!
# The tokens of a builder

`Builder.addNote` takes a token apart twice: a leading number is split off, and what is left is read
as the name of a note. Both times a line feed at the end does no harm. So the grammar of tokens is
not quite the one they are meant to have, which is digits or none, a letter and at most one accidental
(`Builder.SpellsNote`): a token is accepted exactly where it is in that grammar once a line feed at
its end is taken away (`addNote_appends_iff`), and `C` with a line feed behind it is a note
(`addNote_line_feed`). There is no other difference. A second line feed, one in front or one between
the number and the name is refused, and so is everything else outside the grammar.

What is accepted may still have no duration, by its own number or by the context's. That is asked
last: a token that is malformed and has the number zero is refused for being malformed.
-/

namespace Chiptune

open Text

/-! ## A line feed at the end -/

theorem dropFinalNewline_append {front : List Char} (h : '\n' ∉ front) (rest : List Char) :
    dropFinalNewline (front ++ rest) = front ++ dropFinalNewline rest := by
  rcases List.eq_nil_or_concat rest with rfl | ⟨before, c, rfl⟩
  · rw [List.append_nil, dropFinalNewline_of_not_mem h]
    exact (List.append_nil front).symm
  · unfold dropFinalNewline
    rw [List.concat_eq_append, ← List.append_assoc, List.getLast?_concat, List.getLast?_concat]
    split
    · rw [List.dropLast_concat, List.dropLast_concat]
    · rw [List.append_assoc]

theorem newline_not_mem_of_isDigit {run : List Char} (h : ∀ c ∈ run, isDigit c = true) :
    '\n' ∉ run := fun hmem => absurd (h '\n' hmem) (by decide)

theorem stopsAt_dropFinalNewline {p : Char → Bool} {rest : List Char} (h : StopsAt p rest) :
    StopsAt p (dropFinalNewline rest) := by
  unfold dropFinalNewline
  split
  · intro d hd
    cases rest with
    | nil => cases hd
    | cons c later =>
      cases later with
      | nil => cases hd
      | cons e later =>
        cases hd
        exact h _ rfl
  · exact h

namespace Builder

/-! ## The grammar -/

/-- A token that spells a note: a run of digits, or none, and a note behind it. -/
def SpellsNote (token : List Char) : Prop :=
  ∃ digits note, token = digits ++ note ∧ (∀ c ∈ digits, isDigit c = true) ∧ NoteShape note

/-- The duration that a token asks for: its number, or else the one of the context. -/
def durationOf (context : Context) (token : List Char) : Int :=
  if Pattern.digits token = [] then context.duration else (digitsValue (Pattern.digits token) : Nat)

/-- The instruction that has the token for its argument. -/
def instructionOf (token : List Char) : Instruction :=
  ⟨0, if Pattern.digits token = [] then .note else .timedNote, String.ofList token⟩

theorem spellsNote_iff {token : List Char} :
    SpellsNote token ↔ NoteShape (token.dropWhile isDigit) := by
  constructor
  · rintro ⟨digits, note, rfl, hdigits, hnote⟩
    have hstops : StopsAt isDigit note := by simpa using hnote.stopsAt_digit []
    rw [dropWhile_append_of_stopsAt hdigits hstops]
    exact hnote
  · intro hnote
    exact ⟨token.takeWhile isDigit, _, List.takeWhile_append_dropWhile.symm,
      fun c hc => List.mem_takeWhile_imp hc, hnote⟩

/-- A token falls into its digits and the rest, also without the line feed at its end. -/
theorem dropFinalNewline_token (token : List Char) :
    Pattern.digits (dropFinalNewline token) = Pattern.digits token ∧
      (dropFinalNewline token).dropWhile isDigit =
        dropFinalNewline (token.dropWhile isDigit) := by
  have hdigits : ∀ c ∈ token.takeWhile isDigit, isDigit c = true := fun c hc =>
    List.mem_takeWhile_imp hc
  have hstops := stopsAt_dropFinalNewline (stopsAt_dropWhile isDigit token)
  have hbare : dropFinalNewline token =
      token.takeWhile isDigit ++ dropFinalNewline (token.dropWhile isDigit) := by
    rw [← dropFinalNewline_append (newline_not_mem_of_isDigit hdigits),
      List.takeWhile_append_dropWhile]
  unfold Pattern.digits
  rw [hbare]
  exact ⟨takeWhile_append_of_stopsAt hdigits hstops, dropWhile_append_of_stopsAt hdigits hstops⟩

/-! ## Reading a token -/

theorem splitToken_cases (token : List Char) :
    splitToken token = (none, token) ∧
        (Pattern.digits token = [] ∨ '\n' ∈ dropFinalNewline (token.dropWhile isDigit)) ∨
      splitToken token = (some (Pattern.digits token), dropFinalNewline (token.dropWhile isDigit)) ∧
        Pattern.digits token ≠ [] ∧ '\n' ∉ dropFinalNewline (token.dropWhile isDigit) := by
  unfold splitToken
  simp only
  split
  · rename_i hwhole
    exact Or.inl ⟨rfl, hwhole⟩
  · rename_i hsplit
    exact Or.inr ⟨rfl, not_or.mp hsplit⟩

theorem readNumber_digits {token : List Char} (hne : Pattern.digits token ≠ [])
    (hrun : (Pattern.digits token).length ≤ Decimal.maxDigits) :
    readNumber (Pattern.digits token) = .ok (digitsValue (Pattern.digits token)) := by
  rw [readNumber_of_digits hne fun c hc => List.mem_takeWhile_imp hc,
    if_neg (Nat.not_lt.mpr hrun)]

/-- What spells a note is read as the note that its name spells, with the duration it asks for. -/
theorem readNote_of_spellsNote (context : Context) {token : String}
    (hrun : (Pattern.digits token.toList).length ≤ Decimal.maxDigits)
    (h : SpellsNote (dropFinalNewline token.toList)) :
    ∃ spelling,
      Spelling.read? (dropFinalNewline (token.toList.dropWhile isDigit)) = some spelling ∧
        readNote context token =
          Note.ofSpelling spelling (durationOf context (dropFinalNewline token.toList))
            context.octave context.volume context.timbre := by
  obtain ⟨hdigits, hrest⟩ := dropFinalNewline_token token.toList
  have hname := spellsNote_iff.mp h
  rw [hrest] at hname
  obtain ⟨head, marks, spelling, -, hspelling, -⟩ := hname.read
  refine ⟨spelling, hspelling, ?_⟩
  unfold durationOf readNote
  rw [hdigits]
  rcases splitToken_cases token.toList with ⟨hsplit, hwhole⟩ | ⟨hsplit, hne, hline⟩
  · -- No line feed is in the way, so there are no digits, and the name is read out of the token.
    have hnone := hwhole.resolve_right hname.newline_not_mem
    have hall : token.toList.dropWhile isDigit = token.toList := by
      have := List.takeWhile_append_dropWhile (p := isDigit) (l := token.toList)
      rwa [show token.toList.takeWhile isDigit = [] from hnone] at this
    rw [hall] at hname hspelling
    have hread : Spelling.read? token.toList = some spelling := by
      rw [← hspelling]
      unfold Spelling.read?
      rw [dropFinalNewline_of_not_mem hname.newline_not_mem]
    rw [hsplit, if_pos hnone]
    unfold Note.ofName Pitch.spelling
    simp only [pure, Except.pure, bind, Except.bind, String.toList_ofList, hread]
  · rw [hsplit, if_neg hne]
    unfold Note.ofName Pitch.spelling
    simp only [readNumber_digits hne hrun, bind, Except.bind, String.toList_ofList, hspelling]

/-- What spells no note is refused as a name, whatever its number is. -/
theorem readNote_of_not_spellsNote (context : Context) {token : String}
    (hrun : (Pattern.digits token.toList).length ≤ Decimal.maxDigits)
    (h : ¬ SpellsNote (dropFinalNewline token.toList)) :
    ∃ name, readNote context token = .error (.noteName name) := by
  obtain ⟨-, hrest⟩ := dropFinalNewline_token token.toList
  have hspelling : ∀ name, ¬ NoteShape (dropFinalNewline name) → Spelling.read? name = none :=
    fun name hname => Option.not_isSome_iff_eq_none.mp (Spelling.isSome_read?_iff.not.mpr hname)
  unfold readNote
  rcases splitToken_cases token.toList with ⟨hsplit, -⟩ | ⟨hsplit, hne, hline⟩
  · have hnone := hspelling token.toList fun hnote =>
      h ⟨[], _, rfl, fun c hc => absurd hc List.not_mem_nil, hnote⟩
    rw [hsplit]
    unfold Note.ofName Pitch.spelling
    simp only [pure, Except.pure, bind, Except.bind, String.toList_ofList, hnone]
    exact ⟨_, rfl⟩
  · have hnone := hspelling (dropFinalNewline (token.toList.dropWhile isDigit)) fun hnote => by
      rw [dropFinalNewline_of_not_mem hline, ← hrest] at hnote
      exact h (spellsNote_iff.mpr hnote)
    rw [hsplit]
    unfold Note.ofName Pitch.spelling
    simp only [readNumber_digits hne hrun, bind, Except.bind, String.toList_ofList, hnone]
    exact ⟨_, rfl⟩

/-- The note that is read is the one its instruction means. -/
theorem renders_of_ofSpelling {context : Context} {token : List Char} {spelling : Spelling}
    {note : Note} (h : SpellsNote token)
    (hspelling : Spelling.read? (token.dropWhile isDigit) = some spelling)
    (hmade : Note.ofSpelling spelling (durationOf context token) context.octave context.volume
      context.timbre = .ok note) :
    note.Renders context (instructionOf token) := by
  have hname : (instructionOf token).noteName = token.dropWhile isDigit := by
    show (String.ofList token).toList.dropWhile isDigit = _
    rw [String.toList_ofList]
  refine @Note.renders_of_ofName context _ (durationOf context token) note ?_ ?_ ?_
  · rw [hname]
    exact spellsNote_iff.mp h
  · unfold durationOf instructionOf Pattern.digits
    rw [String.toList_ofList]
    by_cases hnone : token.takeWhile isDigit = [] <;> simp [hnone]
  · rw [hname]
    unfold Note.ofName Pitch.spelling
    rw [String.toList_ofList, hspelling]
    exact hmade

/-! ## Adding what a token spells -/

variable {token : String}

theorem not_pushed_of_refused {builder : Builder} {error : Error}
    (h : builder.addNote token = builder.refuse error) :
    ¬ ∃ note, (builder.addNote token).builder = builder.push note := by
  rintro ⟨note, hpushed⟩
  rw [h] at hpushed
  have hsize := congrArg (fun b : Builder => b.channel.notes.size) hpushed
  simp [refuse, push, Channel.push] at hsize

/-- A token of the grammar that asks for a duration is added. -/
theorem addNote_of_spellsNote (builder : Builder)
    (hrun : (Pattern.digits token.toList).length ≤ Decimal.maxDigits)
    (h : SpellsNote (dropFinalNewline token.toList))
    (hduration : 1 ≤ durationOf builder.context (dropFinalNewline token.toList)) :
    ∃ note, note.Renders builder.context (instructionOf (dropFinalNewline token.toList)) ∧
      (builder.addNote token).builder = builder.push note ∧
        (builder.addNote token).failure? =
          if note.isWritable = true then none else some .tooManyDigits := by
  obtain ⟨spelling, hspelling, hread⟩ := readNote_of_spellsNote builder.context hrun h
  obtain ⟨note, hmade, -⟩ := (Note.ofSpelling_lasts spelling).of_not (Int.not_lt.mpr hduration)
  refine ⟨note, renders_of_ofSpelling h ?_ hmade, ?_⟩
  · rw [(dropFinalNewline_token token.toList).2]
    exact hspelling
  · unfold addNote
    rw [hread, hmade]
    refine ⟨tell_builder _ _, ?_⟩
    simp only [tell, isWritable_noteAdded]
    split <;> rfl

/-- A token of the grammar without a duration is refused for that. -/
theorem addNote_of_no_duration (builder : Builder)
    (hrun : (Pattern.digits token.toList).length ≤ Decimal.maxDigits)
    (hwritable : Decimal.isWritable builder.context.duration = true)
    (h : SpellsNote (dropFinalNewline token.toList))
    (hduration : durationOf builder.context (dropFinalNewline token.toList) < 1) :
    builder.addNote token =
      builder.refuse (.duration (durationOf builder.context (dropFinalNewline token.toList))) := by
  obtain ⟨spelling, -, hread⟩ := readNote_of_spellsNote builder.context hrun h
  have hstated : Decimal.isWritable
      (durationOf builder.context (dropFinalNewline token.toList)) = true := by
    unfold durationOf at hduration ⊢
    split at hduration
    · rename_i hnone
      rw [if_pos hnone]
      exact hwritable
    · -- A number is not negative, so what is below one is zero.
      rename_i hsome
      rw [if_neg hsome, Decimal.isWritable_iff]
      have hpos : 0 < 10 ^ Decimal.maxDigits := Nat.pow_pos (by decide)
      omega
  unfold addNote
  rw [hread, (Note.ofSpelling_lasts spelling).of_wrong hduration, Error.stating, if_pos hstated]

theorem addNote_of_not_spellsNote (builder : Builder)
    (hrun : (Pattern.digits token.toList).length ≤ Decimal.maxDigits)
    (h : ¬ SpellsNote (dropFinalNewline token.toList)) :
    ∃ name, builder.addNote token = builder.refuse (.noteName name) := by
  obtain ⟨name, hread⟩ := readNote_of_not_spellsNote builder.context hrun h
  refine ⟨name, ?_⟩
  unfold addNote
  rw [hread]

/-- **A token is accepted exactly if it spells a note, but for a line feed at its end, and asks for
a duration.** It is refused as a name if it spells none, and for its duration if that is all that is
wrong with it; then nothing is added. The context stays in any case. -/
theorem addNote_appends_iff (builder : Builder) (token : String)
    (hrun : (Pattern.digits token.toList).length ≤ Decimal.maxDigits)
    (hwritable : Decimal.isWritable builder.context.duration = true) :
    let bare := dropFinalNewline token.toList
    let duration := durationOf builder.context bare
    ((∃ note, (builder.addNote token).builder = builder.push note) ↔
        SpellsNote bare ∧ 1 ≤ duration) ∧
      (SpellsNote bare → 1 ≤ duration →
        ∃ note, note.Renders builder.context (instructionOf bare) ∧
          (builder.addNote token).builder = builder.push note ∧
            (builder.addNote token).failure? =
              if note.isWritable = true then none else some .tooManyDigits) ∧
      (¬ SpellsNote bare → ∃ name, builder.addNote token = builder.refuse (.noteName name)) ∧
      (SpellsNote bare → duration < 1 →
        builder.addNote token = builder.refuse (.duration duration)) ∧
      (builder.addNote token).builder.context = builder.context := by
  intro bare duration
  by_cases hspells : SpellsNote bare
  · by_cases hduration : 1 ≤ duration
    · obtain ⟨note, hrenders, hpushed, hfailure⟩ :=
        addNote_of_spellsNote builder hrun hspells hduration
      refine ⟨⟨fun _ => ⟨hspells, hduration⟩, fun _ => ⟨note, hpushed⟩⟩,
        fun _ _ => ⟨note, hrenders, hpushed, hfailure⟩, fun hnot => absurd hspells hnot,
        fun _ hshort => absurd hduration (Int.not_le.mpr hshort), ?_⟩
      rw [hpushed]
      rfl
    · have hrefused :=
        addNote_of_no_duration builder hrun hwritable hspells (Int.not_le.mp hduration)
      refine ⟨⟨fun h => absurd h (not_pushed_of_refused hrefused), fun h => absurd h.2 hduration⟩,
        fun _ hlong => absurd hlong hduration, fun hnot => absurd hspells hnot,
        fun _ _ => hrefused, ?_⟩
      rw [hrefused]
      rfl
  · obtain ⟨name, hrefused⟩ := addNote_of_not_spellsNote builder hrun hspells
    refine ⟨⟨fun h => absurd h (not_pushed_of_refused hrefused), fun h => absurd h.1 hspells⟩,
      fun h => absurd h hspells, fun _ => ⟨name, hrefused⟩, fun h => absurd h hspells, ?_⟩
    rw [hrefused]
    rfl

/-- A token that is malformed, has the number zero and a line feed at its end, in a context without a
duration; and one that is accepted in that context, with a line feed as well. -/
theorem addNote_appends_iff_no_duration :
    let builder : Builder := { Builder.start "a" Kind.table with context.duration := -2 }
    (∃ name, builder.addNote "0h\n" = builder.refuse (.noteName name)) ∧
      builder.addNote "c" = builder.refuse (.duration (-2)) ∧
      ∃ note, note.Renders builder.context (instructionOf "1٦b-".toList) ∧
        (builder.addNote "1٦b-\n").builder = builder.push note := by
  intro builder
  have hwritable : Decimal.isWritable builder.context.duration = true := by decide +kernel
  have hnote : NoteShape ['b', '-'] := .marked (by decide) (by decide)
  obtain ⟨-, -, hmalformed, -, -⟩ := addNote_appends_iff builder "0h\n" (by decide) hwritable
  obtain ⟨-, -, -, hshort, -⟩ := addNote_appends_iff builder "c" (by decide) hwritable
  obtain ⟨-, hadded, -, -, -⟩ := addNote_appends_iff builder "1٦b-\n" (by decide) hwritable
  refine ⟨hmalformed fun h => ?_, hshort (spellsNote_iff.mpr (.plain (by decide))) (by decide), ?_⟩
  · have hshape : NoteShape ['h'] := spellsNote_iff.mp h
    cases hshape with
    | plain hletter => exact absurd hletter (by decide)
  · obtain ⟨note, hrenders, hpushed, -⟩ := hadded (spellsNote_iff.mpr hnote) (by decide)
    exact ⟨note, hrenders, hpushed⟩

/-- **A line feed passes for the end of a name.** It is no part of any token that spells a note, and
yet a note is added. -/
theorem addNote_line_feed :
    ¬ SpellsNote "C\n".toList ∧
      ∃ note, ((Builder.start "" Kind.table).addNote "C\n").builder =
        (Builder.start "" Kind.table).push note := by
  refine ⟨fun h => ?_, ?_⟩
  · have hshape : NoteShape ['C', '\n'] := spellsNote_iff.mp h
    cases hshape with
    | marked _ hmark => exact absurd hmark (by decide)
  · have hspells : SpellsNote (dropFinalNewline "C\n".toList) :=
      spellsNote_iff.mpr (.plain (by decide))
    obtain ⟨note, -, hpushed, -⟩ :=
      addNote_of_spellsNote (Builder.start "" Kind.table) (by decide) hspells (by decide)
    exact ⟨note, hpushed⟩

end Builder
end Chiptune
