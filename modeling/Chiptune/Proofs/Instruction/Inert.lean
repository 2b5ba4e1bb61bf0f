import Chiptune.Proofs.Instruction.Piecewise
import Chiptune.Proofs.Instruction.Reading
import Chiptune.Proofs.Instruction.Resolution

/-!
# Inert characters

A bar, a blank or a stray symbol between two pieces of music changes nothing about how either piece
is read, whatever table reads them. `Piecewise.lean` has that for the characters that no instruction
contains; here it is made exact (`separates_iff`). The characters that keep their two sides apart are
those that are neither word characters nor one of the eight marks, and no others: every other
character is part of some instruction, and a table of that one kind reads the instruction as a whole
and not in two pieces.

So there is no smaller list of characters to stay away from, and none of the two halves of the
statement could be dropped: one says that inert characters are safe, the other that they are all
that is.
-/

namespace Chiptune

open Pattern

variable {kind : Kind} {token argument : List Char} {c : Char}

/-! ## A token alone -/

theorem ends_nil (token : List Char) : Ends token [] :=
  fun _ _ => ⟨fun _ d hd => absurd hd (by simp), fun _ d hd => absurd hd (by simp)⟩

namespace Schedule

/-- A scan of a token finds the token. -/
theorem scan_token {wanted : Kind → Bool} (hwanted : wanted kind = true)
    (h : kind.Shape token argument) :
    scan wanted token = [⟨⟨0, kind, String.ofList argument⟩, token.length⟩] := by
  have hmatch : kind.match? token = some ⟨token.length, argument⟩ := by
    simpa using Kind.match?_complete h (ends_nil token)
  unfold scan
  rw [scanFrom_of_match hwanted hmatch, List.drop_length]
  rfl

/-- With one kind there is nothing to settle: the schedule is what the search finds. -/
theorem ofLine_single (kind : Kind) (line : List Char) :
    ofLine [kind] line = (kind.occurrences line).map (·.toInstruction) := by
  have hsorted := occurrences_eq_scan kind line ▸ pairwise_scan (· == kind) line
  refine ofLine_eq_of_mem_iff hsorted fun o => ?_
  have hturn : o ∈ accepted ([] ++ [kind]) line ↔ _ := mem_accepted_concat_iff
  simpa [accepted_nil] using hturn

theorem ofLine_single_token (h : kind.Shape token argument) :
    ofLine [kind] token = [⟨0, kind, String.ofList argument⟩] := by
  rw [ofLine_single, occurrences_eq_scan, scan_token (by simp) h]
  rfl

theorem ofLine_table_token (h : kind.Shape token argument) :
    ofLine Kind.table token = [⟨0, kind, String.ofList argument⟩] := by
  rw [ofLine_table]
  unfold tokens
  rw [scan_token rfl h]
  rfl

end Schedule

/-! ## What is part of an instruction -/

/-- The marks that instructions are written with, besides word characters. -/
def Pattern.marks : List Char := ['@', '(', ')', '<', '>', '#', '+', '-']

theorem isSeparator_of_inert (hword : Text.isWord c = false) (hmark : c ∉ marks) :
    isSeparator c = true := by
  have hdigit : Text.isDigit c = false := by
    by_contra h
    rw [Text.isWord_of_isDigit (by simpa using h)] at hword
    cases hword
  have hletter : isNoteLetter c = false := by
    have hall : (noteLetters.all Text.isWord) = true := by decide +kernel
    by_contra h
    have := List.all_eq_true.mp hall c (isNoteLetter_iff.mp (by simpa using h))
    rw [hword] at this
    cases this
  have haccidental : isAccidental c = false := by
    by_contra h
    rcases eq_of_isAccidental (by simpa using h) with rfl | rfl | rfl <;>
      exact hmark (by decide)
  have hbracket : c ∉ ['@', '(', ')', '<', '>'] := fun hmem =>
    hmark (List.mem_append_left ['#', '+', '-'] hmem)
  unfold isSeparator
  rw [hdigit, hword, hletter, haccidental, List.contains_eq_mem, decide_eq_false hbracket]
  rfl

/-- What is not inert is part of some instruction. -/
theorem exists_shape_of_not_inert (h : ¬ (Text.isWord c = false ∧ c ∉ marks)) :
    ∃ kind token argument, Kind.Shape kind token argument ∧ c ∈ token := by
  by_cases hword : Text.isWord c = true
  · have hname : ∀ d ∈ [c], Text.isWord d = true := fun d hd => by
      rw [List.mem_singleton.mp hd]
      exact hword
    exact ⟨.timbre, _, [c], .timbre (by simp) hname, by simp⟩
  · have hmark : c ∈ marks := by simpa [hword] using h
    have htimbre : Kind.timbre.Shape ('@' :: '(' :: (['x'] ++ [')'])) ['x'] := by
      refine .timbre (by simp) fun d hd => ?_
      rw [List.mem_singleton.mp hd]
      decide +kernel
    have hnote : ∀ {d : Char}, d ∈ accidentals → Kind.note.Shape ['C', d] ['C', d] :=
      fun hd => .note (.marked (by decide) hd)
    simp only [marks, List.mem_cons, List.not_mem_nil, or_false] at hmark
    rcases hmark with rfl | rfl | rfl | rfl | rfl | rfl | rfl | rfl
    · exact ⟨_, _, _, htimbre, by simp⟩
    · exact ⟨_, _, _, htimbre, by simp⟩
    · exact ⟨_, _, _, htimbre, by simp⟩
    · exact ⟨_, _, _, .octaveUp, by simp⟩
    · exact ⟨_, _, _, .octaveDown, by simp⟩
    · exact ⟨_, _, _, hnote (d := '#') (by decide), by simp⟩
    · exact ⟨_, _, _, hnote (d := '+') (by decide), by simp⟩
    · exact ⟨_, _, _, hnote (d := '-') (by decide), by simp⟩

/-- The number of characters of an instruction that are not captured. -/
def Kind.margin : Kind → Nat
  | timbre => 3
  | timedNote | note => 0
  | volume | volumeUp | volumeDown | octave | octaveUp | octaveDown | length | tempo => 1

theorem Kind.Shape.length_eq (h : kind.Shape token argument) :
    token.length = argument.length + kind.margin := by
  cases h with
  | timbre _ _ => simp [margin]
  | number hmark _ _ =>
    have hmargin : kind.margin = 1 := by
      revert hmark
      cases kind <;> simp [numberMarks, margin]
    rw [hmargin, List.length_cons]
  | octaveUp => rfl
  | octaveDown => rfl
  | timedNote _ _ _ => rfl
  | note _ => rfl

namespace Schedule

/-- Read by its own kind alone, an instruction is not the sum of its pieces. -/
theorem ofLine_single_cut {before after : List Char}
    (h : kind.Shape (before ++ c :: after) argument) :
    ofLine [kind] (before ++ c :: after) ≠
      ofLine [kind] before ++
        (ofLine [kind] after).map (Instruction.shift (before.length + 1)) := by
  intro hcut
  rw [ofLine_single_token h] at hcut
  have hmem : (⟨0, kind, String.ofList argument⟩ : Instruction) ∈
      ofLine [kind] before ++
        (ofLine [kind] after).map (Instruction.shift (before.length + 1)) := by
    rw [← hcut]
    exact List.mem_cons_self
  rcases List.mem_append.mp hmem with hbefore | hafter
  · -- The first piece is too short for an instruction that captures as much.
    obtain ⟨-, length, -, hshape⟩ := match?_of_mem_ofLine hbefore
    rw [String.toList_ofList] at hshape
    have hlength := h.length_eq.trans hshape.length_eq.symm
    simp only [List.length_append, List.length_cons, List.length_take, List.length_drop] at hlength
    omega
  · obtain ⟨i, -, hi⟩ := List.mem_map.mp hafter
    have hoffset : i.offset + (before.length + 1) = 0 := congrArg Instruction.offset hi
    omega

/-- **A character keeps what stands on its two sides apart iff it is inert**: it is no word
character and none of the marks. Whatever the table, the schedule of the whole is then the schedule
of what stands in front and, moved by its length and one, the schedule of what stands behind. -/
theorem separates_iff {c : Char} :
    (∀ (table : List Kind) (before after : List Char),
        ofLine table (before ++ c :: after) =
          ofLine table before ++
            (ofLine table after).map fun i => { i with offset := i.offset + (before.length + 1) }) ↔
      Text.isWord c = false ∧ c ∉ ['@', '(', ')', '<', '>', '#', '+', '-'] := by
  constructor
  · intro hseparates
    by_contra hinert
    obtain ⟨kind, token, argument, hshape, hmem⟩ := exists_shape_of_not_inert hinert
    obtain ⟨before, after, rfl⟩ := List.append_of_mem hmem
    exact ofLine_single_cut hshape (hseparates [kind] before after)
  · rintro ⟨hword, hmark⟩ table before after
    exact ofLine_append_separator (isSeparator_of_inert hword hmark) table before after

end Schedule
end Chiptune
