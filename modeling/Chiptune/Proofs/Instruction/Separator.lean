import Chiptune.Instruction.Schedule
import Chiptune.Proofs.Instruction.Shape
import Chiptune.Text.Lines

/-!
# Characters that no instruction contains

A blank or a line break is part of no instruction, and nothing behind it bears on what is read in
front of it. So a search falls apart there (`Kind.occurrences_append_separator`): what it finds in a
text is what it finds in the two pieces. This is why it comes to the same whether a text is searched
as a whole or line by line, and whether the name of a channel is cut out or blanked out.
-/

namespace Chiptune

open Pattern

/-- A character that no instruction contains. -/
def Pattern.isSeparator (c : Char) : Bool :=
  !(Text.isDigit c || Text.isWord c || isNoteLetter c || isAccidental c ||
    ['@', '(', ')', '<', '>'].contains c)

theorem isSeparator_blank : isSeparator ' ' = true := by decide +kernel

theorem isSeparator_of_isLineBreak {c : Char} (h : Text.isLineBreak c = true) :
    isSeparator c = true := by
  unfold Text.isLineBreak at h
  simp only [Bool.or_eq_true, beq_iff_eq] at h
  rcases h with ((((((((rfl | rfl) | rfl) | rfl) | rfl) | rfl) | rfl) | rfl) | rfl) | rfl <;>
    decide +kernel

variable {kind : Kind} {c : Char}

theorem Kind.not_isSeparator_of_mem_numberMarks (h : c ∈ kind.numberMarks) :
    isSeparator c = false := by
  have hall : (kind.numberMarks.all fun d => !isSeparator d) = true := by
    cases kind <;> decide +kernel
  simpa using List.all_eq_true.mp hall c h

theorem NoteShape.not_isSeparator {note : List Char} (h : NoteShape note) (hc : c ∈ note) :
    isSeparator c = false := by
  obtain ⟨letter, marks, rfl, hletter, hmarks⟩ := h.head
  rcases List.mem_cons.mp hc with rfl | hc
  · simp [isSeparator, hletter]
  · simp [isSeparator, hmarks c hc]

theorem Kind.Shape.not_isSeparator {token argument : List Char} (h : kind.Shape token argument)
    (hc : c ∈ token) : isSeparator c = false := by
  cases h with
  | timbre hne hname =>
    simp only [List.mem_cons, List.mem_append, List.not_mem_nil, or_false] at hc
    rcases hc with rfl | rfl | hc | rfl
    · simp [isSeparator]
    · simp [isSeparator]
    · simp [isSeparator, hname c hc]
    · simp [isSeparator]
  | number hmark _ hdigits =>
    rcases List.mem_cons.mp hc with rfl | hc
    · exact Kind.not_isSeparator_of_mem_numberMarks hmark
    · simp [isSeparator, hdigits c hc]
  | octaveUp => simp [isSeparator, List.mem_singleton.mp hc]
  | octaveDown => simp [isSeparator, List.mem_singleton.mp hc]
  | timedNote _ hdigits hnote =>
    rcases List.mem_append.mp hc with hc | hc
    · simp [isSeparator, hdigits c hc]
    · exact hnote.not_isSeparator hc
  | note hnote => exact hnote.not_isSeparator hc

theorem stopsAt_append_separator {p : Char → Bool} (hp : p c = false) (before after : List Char) :
    StopsAt p (before ++ c :: after) ↔ StopsAt p before := by
  cases before with
  | nil => simp [StopsAt, hp]
  | cons d before => simp [StopsAt]

/-- **Nothing behind a separator bears on a match in front of it.** -/
theorem Kind.match?_append_separator (hc : isSeparator c = true) (before after : List Char) :
    kind.match? (before ++ c :: after) = kind.match? before := by
  have hdigit : Text.isDigit c = false := by simp_all [isSeparator]
  have haccidental : isAccidental c = false := by simp_all [isSeparator]
  have hends : ∀ token rest, Ends token (rest ++ c :: after) ↔ Ends token rest := by
    intro token rest
    unfold Ends
    rw [stopsAt_append_separator hdigit, stopsAt_append_separator haccidental]
  refine Option.ext fun m => ?_
  rw [Kind.match?_eq_some_iff, Kind.match?_eq_some_iff]
  constructor
  · rintro ⟨token, rest, htext, hshape, hstop, hlength⟩
    have hnot : c ∉ token := fun hmem => by
      rw [hshape.not_isSeparator hmem] at hc
      exact absurd hc (by simp)
    -- The token ends in front of the separator, since it cannot contain it.
    rcases List.append_eq_append_iff.mp htext with ⟨more, rfl, hmore⟩ | ⟨more, rfl, rfl⟩
    · cases more with
      | nil =>
        rw [List.nil_append] at hmore
        rw [← hmore, ← List.nil_append (c :: after), hends] at hstop
        exact ⟨before ++ [], [], by simp, hshape, hstop, hlength⟩
      | cons d more =>
        cases hmore
        exact absurd (by simp) hnot
    · exact ⟨token, more, rfl, hshape, (hends token more).mp hstop, hlength⟩
  · rintro ⟨token, rest, rfl, hshape, hstop, hlength⟩
    exact ⟨token, rest ++ c :: after, by simp, hshape, (hends token rest).mpr hstop, hlength⟩

/-! ## Searching piece by piece -/

/-- An occurrence with so many more characters in front of it. -/
def Occurrence.shift (n : Nat) (o : Occurrence) : Occurrence := { o with offset := o.offset + n }

@[simp] theorem Occurrence.shift_offset (n : Nat) (o : Occurrence) :
    (o.shift n).offset = o.offset + n := rfl

@[simp] theorem Occurrence.shift_kind (n : Nat) (o : Occurrence) : (o.shift n).kind = o.kind := rfl

@[simp] theorem Occurrence.shift_argument (n : Nat) (o : Occurrence) :
    (o.shift n).argument = o.argument := rfl

@[simp] theorem Occurrence.shift_stop (n : Nat) (o : Occurrence) :
    (o.shift n).stop = o.stop + n := Nat.add_right_comm _ _ _

/-- Counting characters from another place moves what a search finds, and changes nothing else. -/
theorem Kind.occurrencesFrom_add (kind : Kind) (text : List Char) :
    ∀ offset skip n : Nat, kind.occurrencesFrom (offset + n) skip text =
      (kind.occurrencesFrom offset skip text).map (Occurrence.shift n) := by
  induction text with
  | nil => intro offset skip n; cases skip <;> rfl
  | cons d rest ih =>
    intro offset skip n
    have hnext : ∀ skip, kind.occurrencesFrom (offset + n + 1) skip rest =
        (kind.occurrencesFrom (offset + 1) skip rest).map (Occurrence.shift n) := by
      intro skip
      rw [Nat.add_right_comm]
      exact ih _ _ _
    cases skip with
    | succ skip => exact hnext skip
    | zero =>
      unfold Kind.occurrencesFrom
      split
      · exact hnext 0
      · rw [List.map_cons, hnext]
        rfl

/-- **A search falls apart at a separator.** -/
theorem Kind.occurrences_append_separator (hc : isSeparator c = true) (before after : List Char) :
    kind.occurrences (before ++ c :: after) =
      kind.occurrences before ++
        (kind.occurrences after).map (Occurrence.shift (before.length + 1)) := by
  -- A match found so far ends in front of the separator, so it skips no more than is left of it.
  have hfrom : ∀ (before : List Char) (offset skip : Nat), skip ≤ before.length →
      kind.occurrencesFrom offset skip (before ++ c :: after) =
        kind.occurrencesFrom offset skip before ++
          kind.occurrencesFrom (offset + (before.length + 1)) 0 after := by
    intro before
    induction before with
    | nil =>
      intro offset skip hskip
      obtain rfl : skip = 0 := by simpa using hskip
      have hnone : kind.match? (c :: after) = none := by
        rw [← List.nil_append (c :: after), Kind.match?_append_separator hc, Kind.match?_nil]
      rw [List.nil_append]
      simp only [Kind.occurrencesFrom, hnone]
      rfl
    | cons d rest ih =>
      intro offset skip hskip
      have hlater : ∀ skip ≤ rest.length,
          kind.occurrencesFrom (offset + 1) skip (rest ++ c :: after) =
            kind.occurrencesFrom (offset + 1) skip rest ++
              kind.occurrencesFrom (offset + ((d :: rest).length + 1)) 0 after := by
        intro skip hskip
        rw [ih _ _ hskip, List.length_cons, Nat.add_right_comm offset]
        rfl
      cases skip with
      | succ skip => exact hlater skip (by simpa using hskip)
      | zero =>
        have hsame := @Kind.match?_append_separator kind _ hc (d :: rest) after
        rw [List.cons_append] at hsame ⊢
        simp only [Kind.occurrencesFrom, hsame]
        cases hm : kind.match? (d :: rest) with
        | none => exact hlater 0 (Nat.zero_le _)
        | some m =>
          obtain ⟨token, later, htext, -, -, hlength⟩ := Kind.match?_sound hm
          have hshort : m.length ≤ rest.length + 1 := by
            have := congrArg List.length htext
            simp only [List.length_cons, List.length_append] at this
            omega
          simp only [List.cons_append]
          rw [hlater _ (by omega)]
  unfold Kind.occurrences
  rw [hfrom before 0 0 (Nat.zero_le _), Kind.occurrencesFrom_add]

/-- What a search captures, from the left. -/
def Kind.arguments (kind : Kind) (text : List Char) : List String :=
  (kind.occurrences text).map (·.argument)

theorem Kind.arguments_append_separator (hc : isSeparator c = true) (before after : List Char) :
    kind.arguments (before ++ c :: after) = kind.arguments before ++ kind.arguments after := by
  unfold Kind.arguments
  rw [Kind.occurrences_append_separator hc, List.map_append, List.map_map]
  rfl

end Chiptune
