import Chiptune.Proofs.Instruction.Inert

/-!
# Instructions written out

Kinds and arguments can be written out as a line again: each instruction as its text, with single
blanks between them. Scheduling that line gives them back (`ofLine_writtenOut`), all of them, in
their order, with nothing between them, and each at the offset at which it was written. So what a
line says can be put into a normal form, and the normal form says the same.

A text is read back on its own since it is a token of its kind, whatever its argument looks like:
`@(V5O2C)` begins with an at sign and is a timbre from there to its bracket. Two texts are read apart
since there is a blank between them. `ofLine_joined` has both steps, and has them for every way of
spelling an instruction, as a directive may have a small letter too.
-/

namespace Chiptune

open Pattern

variable {kind : Kind} {token argument : List Char}

/-! ## Texts and arguments -/

/-- The text of an instruction, with a capital where a letter of either case would do. -/
def Kind.write : Kind → List Char → List Char
  | timbre, name => '@' :: '(' :: (name ++ [')'])
  | volume, digits => 'V' :: digits
  | volumeUp, digits => '(' :: digits
  | volumeDown, digits => ')' :: digits
  | octave, digits => 'O' :: digits
  | octaveUp, _ => ['<']
  | octaveDown, _ => ['>']
  | length, digits => 'L' :: digits
  | tempo, digits => 'T' :: digits
  | timedNote, argument => argument
  | note, argument => argument

/-- What can be the argument of a kind. -/
def Kind.Takes : Kind → List Char → Prop
  | timbre, name => name ≠ [] ∧ ∀ c ∈ name, Text.isWord c = true
  | volume, digits | volumeUp, digits | volumeDown, digits | octave, digits | length, digits
  | tempo, digits => digits ≠ [] ∧ ∀ c ∈ digits, Text.isDigit c = true
  | octaveUp, argument | octaveDown, argument => argument = []
  | timedNote, argument => ∃ digits note, argument = digits ++ note ∧ digits ≠ [] ∧
      (∀ c ∈ digits, Text.isDigit c = true) ∧ NoteShape note
  | note, argument => NoteShape argument

theorem Kind.Shape.takes (h : kind.Shape token argument) : kind.Takes argument := by
  cases h with
  | timbre hne hname => exact ⟨hne, hname⟩
  | number hmark hne hdigits =>
    cases kind with
    | volume | volumeUp | volumeDown | octave | length | tempo => exact ⟨hne, hdigits⟩
    | timbre | octaveUp | octaveDown | timedNote | note => exact absurd hmark List.not_mem_nil
  | octaveUp => rfl
  | octaveDown => rfl
  | timedNote hne hdigits hnote => exact ⟨_, _, rfl, hne, hdigits, hnote⟩
  | note hnote => exact hnote

theorem Kind.Takes.shape_write (h : kind.Takes argument) :
    kind.Shape (kind.write argument) argument := by
  cases kind with
  | timbre => exact .timbre h.1 h.2
  | volume | volumeUp | volumeDown | octave | length | tempo =>
    exact .number List.mem_cons_self h.1 h.2
  | octaveUp =>
    cases h
    exact .octaveUp
  | octaveDown =>
    cases h
    exact .octaveDown
  | timedNote =>
    obtain ⟨digits, note, rfl, hne, hdigits, hnote⟩ := h
    exact .timedNote hne hdigits hnote
  | note => exact .note h

namespace Schedule

/-! ## Lines of instructions -/

/-- Texts with single blanks between them. -/
def joined (texts : List (List Char)) : List Char := [' '].intercalate texts

/-- Where joined texts stand: each behind the one before and a blank. -/
def placesFrom (offset : Nat) : List (List Char) → List Nat
  | [] => []
  | text :: later => offset :: placesFrom (offset + (text.length + 1)) later

/-- The instructions that say something, each at its place. -/
def placed (said : List (Kind × String)) (places : List Nat) : List Instruction :=
  List.zipWith (fun x offset => ⟨offset, x.1, x.2⟩) said places

/-- The texts of what is said, one for each. -/
def texts (said : List (Kind × String)) : List (List Char) :=
  said.map fun x => x.1.write x.2.toList

/-- What is said, written out as one line. -/
def writtenOut (said : List (Kind × String)) : List Char := joined (texts said)

theorem joined_cons_cons (text next : List Char) (later : List (List Char)) :
    joined (text :: next :: later) = text ++ ' ' :: joined (next :: later) := by
  simp [joined, List.intercalate, List.intersperse]

theorem placed_shift (said : List (Kind × String)) (texts : List (List Char)) (offset n : Nat) :
    (placed said (placesFrom offset texts)).map (Instruction.shift n) =
      placed said (placesFrom (offset + n) texts) := by
  induction said generalizing offset texts with
  | nil => rfl
  | cons x rest ih =>
    cases texts with
    | nil => rfl
    | cons text later =>
      have hnext : offset + n + (text.length + 1) = offset + (text.length + 1) + n := by omega
      show Instruction.shift n ⟨offset, x.1, x.2⟩ ::
          (placed rest (placesFrom (offset + (text.length + 1)) later)).map (Instruction.shift n) =
        ⟨offset + n, x.1, x.2⟩ :: placed rest (placesFrom (offset + n + (text.length + 1)) later)
      rw [ih, hnext]
      rfl

/-- **Joined texts are read one by one.** Each may be any text of its instruction. -/
theorem ofLine_joined {said : List (Kind × String)} {texts : List (List Char)}
    (h : List.Forall₂ (fun x text => Kind.Shape x.1 text x.2.toList) said texts) :
    ofLine Kind.table (joined texts) = placed said (placesFrom 0 texts) := by
  induction h with
  | nil => exact ofLine_nil _
  | @cons x text rest later hx hrest ih =>
    have hfirst : ofLine Kind.table text = [⟨0, x.1, x.2⟩] := by
      rw [ofLine_table_token hx, String.ofList_toList]
    cases hrest with
    | nil =>
      have halone : joined [text] = text := by simp [joined, List.intercalate]
      rw [halone, hfirst]
      rfl
    | cons _ _ =>
      rw [joined_cons_cons, ofLine_append_separator isSeparator_blank, hfirst, ih, placed_shift]
      rfl

/-- The first of joined texts is a prefix of the line. -/
theorem prefix_joined (text : List Char) (later : List (List Char)) :
    text <+: joined (text :: later) := by
  cases later with
  | nil => simp [joined, List.intercalate]
  | cons next later =>
    rw [joined_cons_cons]
    exact List.prefix_append _ _

/-- What is placed on a line stands there. -/
theorem prefix_drop_of_mem_placed {said : List (Kind × String)} {i : Instruction} :
    ∀ {offset : Nat}, i ∈ placed said (placesFrom offset (texts said)) →
      offset ≤ i.offset ∧
        i.kind.write i.argument.toList <+: (writtenOut said).drop (i.offset - offset) := by
  induction said with
  | nil =>
    intro offset h
    cases h
  | cons x rest ih =>
    intro offset h
    rcases List.mem_cons.mp h with rfl | h
    · refine ⟨Nat.le_refl _, ?_⟩
      rw [Nat.sub_self, List.drop_zero]
      exact prefix_joined _ _
    · obtain ⟨hle, hprefix⟩ : offset + ((x.1.write x.2.toList).length + 1) ≤ i.offset ∧ _ := ih h
      refine ⟨by omega, ?_⟩
      cases rest with
      | nil => cases h
      | cons y later =>
        -- The place of the rest is further on by the text in front and its blank.
        have hline : writtenOut (x :: y :: later) =
            x.1.write x.2.toList ++ [' '] ++ writtenOut (y :: later) :=
          (joined_cons_cons _ _ _).trans (List.append_cons _ _ _)
        have hplace : i.offset - offset = (x.1.write x.2.toList ++ [' ']).length +
            (i.offset - (offset + ((x.1.write x.2.toList).length + 1))) := by
          rw [List.length_append, List.length_singleton]
          omega
        rw [hline, hplace, List.drop_length_add_append]
        exact hprefix

/-! ## Written out and read again -/

theorem wording_placed (said : List (Kind × String)) (offset : Nat) :
    wording (placed said (placesFrom offset (texts said))) = said := by
  induction said generalizing offset with
  | nil => rfl
  | cons x rest ih => exact congrArg (x :: ·) (ih _)

theorem takes_of_mem_wording {table : List Kind} {line : List Char} {x : Kind × String}
    (h : x ∈ wording (ofLine table line)) : x.1.Takes x.2.toList := by
  obtain ⟨i, hi, rfl⟩ := List.mem_map.mp h
  obtain ⟨token, hshape⟩ := shape_of_mem_ofLine hi
  exact hshape.takes

/-- **What is written out is read again.** A line of written instructions, whatever they are and
however many, has just these in its schedule, in their order, each at the offset where its text was
put. So what any line says, written out, says the same. -/
theorem ofLine_writtenOut :
    (∀ said : List (Kind × String), (∀ x ∈ said, x.1.Takes x.2.toList) →
      ofLine Kind.table (writtenOut said) = placed said (placesFrom 0 (texts said)) ∧
        ∀ i ∈ ofLine Kind.table (writtenOut said),
          i.kind.write i.argument.toList <+: (writtenOut said).drop i.offset) ∧
    ∀ line : List Char,
      wording (ofLine Kind.table (writtenOut (wording (ofLine Kind.table line)))) =
        wording (ofLine Kind.table line) := by
  have hread : ∀ said : List (Kind × String), (∀ x ∈ said, x.1.Takes x.2.toList) →
      ofLine Kind.table (writtenOut said) = placed said (placesFrom 0 (texts said)) := by
    intro said htakes
    refine ofLine_joined ?_
    unfold texts
    rw [List.forall₂_map_right_iff, List.forall₂_same]
    exact fun x hx => (htakes x hx).shape_write
  refine ⟨fun said htakes => ⟨hread said htakes, fun i hi => ?_⟩, fun line => ?_⟩
  · rw [hread said htakes] at hi
    exact (prefix_drop_of_mem_placed hi).2
  · rw [hread _ fun x hx => takes_of_mem_wording hx, wording_placed]

/-- Names and notes that are full of other instructions, and digits of several scripts. -/
theorem ofLine_writtenOut_nested :
    let said : List (Kind × String) :=
      [(.timbre, "V5O2C"), (.timedNote, "1٦b-"), (.volumeDown, "٣"), (.octaveUp, ""), (.note, "C")]
    (∀ x ∈ said, x.1.Takes x.2.toList) ∧
      String.ofList (writtenOut said) = "@(V5O2C) 1٦b- )٣ < C" ∧
      ofLine Kind.table (writtenOut said) = [⟨0, .timbre, "V5O2C"⟩, ⟨9, .timedNote, "1٦b-"⟩,
        ⟨14, .volumeDown, "٣"⟩, ⟨17, .octaveUp, ""⟩, ⟨19, .note, "C"⟩] := by
  intro said
  have hname : ∀ c ∈ "V5O2C".toList, Text.isWord c = true := List.all_eq_true.mp (by decide +kernel)
  have hlength : ∀ c ∈ ['1', '٦'], Text.isDigit c = true := List.all_eq_true.mp (by decide +kernel)
  have hvolume : ∀ c ∈ ['٣'], Text.isDigit c = true := List.all_eq_true.mp (by decide +kernel)
  have hnote : NoteShape ['b', '-'] := .marked (by decide) (by decide)
  have htakes : ∀ x ∈ said, x.1.Takes x.2.toList := by
    simp only [said, List.forall_mem_cons]
    refine ⟨⟨by decide, hname⟩, ⟨['1', '٦'], ['b', '-'], rfl, by decide, hlength, hnote⟩,
      ⟨by decide, hvolume⟩, rfl, .plain (by decide), fun x hx => absurd hx List.not_mem_nil⟩
  exact ⟨htakes, by decide +kernel, (ofLine_writtenOut.1 said htakes).1⟩

end Schedule
end Chiptune
