import Chiptune.Pitch
import Chiptune.Proofs.Instruction.Shape

/-!
# Names of notes, found and read

Two parts of the program look at the name of a note, and neither asks the other. A line is searched
for two classes of characters (`Pattern.isNoteLetter`, `Pattern.isAccidental`); a name that was found,
or is given, is read by a decoder that knows seven letters, a rest and three marks (`Spelling.read?`).
They have to agree on what a note is, else a search could find what no reader reads. They do: both
accept the names of `NoteShape` and no others, but that the reader passes over one line feed at the
end (`Spelling.isSome_read?_iff`).

What a name means is stated here without either of them: by the table of the naturals and by the marks
(`naturals`, `accidentalOf`).
-/

namespace Chiptune

/-! ## What names mean -/

/-- The letters of the natural notes, with the semitones from `C` up to each. -/
def naturals : List (Char × Nat) :=
  [('C', 0), ('D', 2), ('E', 4), ('F', 5), ('G', 7), ('A', 9), ('B', 11),
    ('c', 0), ('d', 2), ('e', 4), ('f', 5), ('g', 7), ('a', 9), ('b', 11)]

/-- The semitones that the marks behind a letter add. -/
def accidentalOf : List Char → Int
  | '#' :: _ | '+' :: _ => 1
  | '-' :: _ => -1
  | _ => 0

theorem naturals_le {c : Char} {semitones : Nat} (h : (c, semitones) ∈ naturals) :
    semitones ≤ 11 := by
  have hall : (naturals.all fun natural => decide (natural.2 ≤ 11)) = true := by decide
  simpa using List.all_eq_true.mp hall _ h

theorem accidentalOf_bounds (marks : List Char) :
    -1 ≤ accidentalOf marks ∧ accidentalOf marks ≤ 1 := by
  unfold accidentalOf
  split <;> omega

/-! ## The classes of the search and the decoder -/

theorem Letter.mem_naturals_of_ofChar? {c : Char} {letter : Letter}
    (h : Letter.ofChar? c = some letter) : (c, letter.index) ∈ naturals := by
  unfold ofChar? at h
  split at h <;> cases h <;> decide

theorem Accidental.offset_of_ofChar? {mark : Char} {accidental : Accidental}
    (h : Accidental.ofChar? mark = some accidental) : accidental.offset = accidentalOf [mark] := by
  unfold ofChar? at h
  split at h <;> cases h <;> rfl

/-- **The letters that are found are those that are read.** -/
theorem Spelling.isSome_ofHead? (c : Char) (accidental : Accidental) :
    (Spelling.ofHead? c accidental).isSome = Pattern.isNoteLetter c := by
  rw [Bool.eq_iff_iff, isNoteLetter_iff]
  constructor
  · intro h
    unfold ofHead? at h
    split at h
    · rename_i hrest
      rw [hrest]
      decide
    · rw [Option.isSome_map] at h
      unfold Letter.ofChar? at h
      split at h <;> first | decide | cases h
  · have hall : (Pattern.noteLetters.all fun c => (ofHead? c accidental).isSome) = true := by
      cases accidental <;> decide
    exact List.all_eq_true.mp hall c

/-- **The accidentals that are found are those that are read.** -/
theorem Accidental.isSome_ofChar? (c : Char) :
    (Accidental.ofChar? c).isSome = Pattern.isAccidental c := by
  rw [Bool.eq_iff_iff, isAccidental_iff]
  constructor
  · intro h
    unfold ofChar? at h
    split at h <;> first | decide | cases h
  · have hall : (Pattern.accidentals.all fun c => (ofChar? c).isSome) = true := by decide
    exact List.all_eq_true.mp hall c

/-- What the decoder makes of a letter is what the table says. -/
theorem Spelling.meaning_of_ofHead? {c : Char} {accidental : Accidental} {spelling : Spelling}
    (h : Spelling.ofHead? c accidental = some spelling) :
    c = 'R' ∧ spelling.isRest = true ∧ spelling.scaleIndex = 0 ∨
      ∃ semitones, (c, semitones) ∈ naturals ∧ spelling.isRest = false ∧
        spelling.scaleIndex = semitones + accidental.offset := by
  unfold ofHead? at h
  split at h
  · rename_i hrest
    cases h
    exact Or.inl ⟨hrest, rfl, rfl⟩
  · obtain ⟨letter, hletter, rfl⟩ := Option.map_eq_some_iff.mp h
    exact Or.inr ⟨letter.index, Letter.mem_naturals_of_ofChar? hletter, rfl, rfl⟩

/-! ## Whole names -/

theorem dropFinalNewline_of_not_mem {text : List Char} (h : '\n' ∉ text) :
    Text.dropFinalNewline text = text := by
  unfold Text.dropFinalNewline
  rw [if_neg]
  intro hlast
  exact h (List.mem_of_getLast? hlast)

theorem NoteShape.newline_not_mem {note : List Char} (h : NoteShape note) : '\n' ∉ note := by
  intro hmem
  obtain ⟨letter, marks, rfl, hletter, hmarks⟩ := h.head
  rcases List.mem_cons.mp hmem with rfl | hmem
  · exact absurd hletter (by decide)
  · exact absurd (hmarks _ hmem) (by decide)

/-- What the name of a note spells: what its letter is, and its accidental. -/
theorem NoteShape.read {note : List Char} (h : NoteShape note) :
    ∃ head marks spelling, note = head :: marks ∧ Spelling.read? note = some spelling ∧
      (head = 'R' ∧ spelling.isRest = true ∧ spelling.scaleIndex = 0 ∨
        ∃ semitones, (head, semitones) ∈ naturals ∧ spelling.isRest = false ∧
          spelling.scaleIndex = semitones + accidentalOf marks) := by
  have hplain := dropFinalNewline_of_not_mem h.newline_not_mem
  have hhead : ∀ {c : Char} (accidental : Accidental), c ∈ Pattern.noteLetters →
      ∃ spelling, Spelling.ofHead? c accidental = some spelling := fun accidental hc =>
    Option.isSome_iff_exists.mp
      ((Spelling.isSome_ofHead? _ accidental).trans (isNoteLetter_iff.mpr hc))
  unfold Spelling.read?
  rw [hplain]
  cases h with
  | @plain head hletter =>
    obtain ⟨spelling, hspelling⟩ := hhead .natural hletter
    exact ⟨head, [], spelling, rfl, hspelling, Spelling.meaning_of_ofHead? hspelling⟩
  | @marked head mark hletter hmark =>
    obtain ⟨accidental, haccidental⟩ := Option.isSome_iff_exists.mp
      ((Accidental.isSome_ofChar? mark).trans (isAccidental_iff.mpr hmark))
    obtain ⟨spelling, hspelling⟩ := hhead accidental hletter
    have hmeaning := Spelling.meaning_of_ofHead? hspelling
    rw [Accidental.offset_of_ofChar? haccidental] at hmeaning
    refine ⟨head, [mark], spelling, rfl, ?_, hmeaning⟩
    simp only [haccidental, Option.bind_some, hspelling]

namespace Spelling

theorem noteShape_of_read? {name : List Char} {spelling : Spelling}
    (h : read? name = some spelling) : NoteShape (Text.dropFinalNewline name) := by
  have hletter : ∀ {c : Char} {accidental : Accidental},
      ofHead? c accidental = some spelling → c ∈ Pattern.noteLetters := fun hc =>
    isNoteLetter_iff.mp ((isSome_ofHead? _ _).symm.trans (Option.isSome_of_eq_some hc))
  unfold read? at h
  split at h
  · rename_i head hname
    rw [hname]
    exact .plain (hletter h)
  · rename_i head mark hname
    obtain ⟨accidental, hmark, hhead⟩ := Option.bind_eq_some_iff.mp h
    rw [hname]
    refine .marked (hletter hhead) (isAccidental_iff.mp ?_)
    rw [← Accidental.isSome_ofChar?, hmark]
    rfl
  · cases h

/-- **What is read is what is found**, but for a line feed at the end. -/
theorem isSome_read?_iff {name : List Char} :
    (read? name).isSome = true ↔ NoteShape (Text.dropFinalNewline name) := by
  constructor
  · intro h
    obtain ⟨spelling, hspelling⟩ := Option.isSome_iff_exists.mp h
    exact noteShape_of_read? hspelling
  · intro h
    obtain ⟨-, -, spelling, -, hspelling, -⟩ := h.read
    have hname : read? name = read? (Text.dropFinalNewline name) := by
      unfold read?
      rw [dropFinalNewline_of_not_mem h.newline_not_mem]
    rw [hname, hspelling]
    rfl

end Spelling

end Chiptune
