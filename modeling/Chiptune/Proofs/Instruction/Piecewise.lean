import Chiptune.Proofs.Instruction.Priority
import Chiptune.Proofs.Instruction.Separator
import Chiptune.Proofs.Text.Lines

/-!
# The schedule of a line in pieces

A search falls apart at a separator (`Separator.lean`), and so does everything that a schedule does
with what its searches find: an occurrence in front of the separator is clear of all that stand
behind it, so neither piece can take text away from the other, whatever the order of the table. The
schedule of the whole is the schedule of the first piece and, moved by its length, the schedule of
the second (`Schedule.ofLine_append_separator`).

What is left of a schedule once nobody asks where its instructions stand is what it says, and a text
says the same as its lines do, one after the other (`Schedule.wording_flatMap_lines`).
-/

namespace Chiptune

open Pattern

/-- An instruction with so many more characters in front of it. -/
def Instruction.shift (n : Nat) (i : Instruction) : Instruction := { i with offset := i.offset + n }

namespace Schedule

variable {table : List Kind} {line : List Char} {o : Occurrence} {c : Char}

/-! ## Both sides of a separator -/

theorem mem_occurrences_append_separator {kind : Kind} (hc : isSeparator c = true)
    (before after : List Char) :
    o ∈ kind.occurrences (before ++ c :: after) ↔
      o ∈ kind.occurrences before ∨
        ∃ a ∈ kind.occurrences after, a.shift (before.length + 1) = o := by
  rw [Kind.occurrences_append_separator hc, List.mem_append, List.mem_map]

/-- What stands on one side of a separator is clear of what stands on the other. -/
theorem clearOf_shift {before : List Char} {n : Nat} (h : o.IsMatch before) (a : Occurrence)
    (hn : before.length ≤ n) : o.clearOf (a.shift n) = true := by
  have hstop := h.stop_le
  rw [Occurrence.clearOf_iff, Occurrence.shift_offset]
  omega

theorem shift_clearOf_shift (n : Nat) (a b : Occurrence) :
    (a.shift n).clearOf (b.shift n) = a.clearOf b := by
  simp [Occurrence.clearOf]

/-- **A table accepts of a line what it accepts of the two pieces.** By induction on the table: a
kind adds what its search finds on either side, and only the same side can be in its way. -/
theorem mem_accepted_append_separator (hc : isSeparator c = true) (table : List Kind)
    (before after : List Char) :
    ∀ o, o ∈ accepted table (before ++ c :: after) ↔
      o ∈ accepted table before ∨
        ∃ a ∈ accepted table after, a.shift (before.length + 1) = o := by
  induction table using List.reverseRecOn with
  | nil => simp [accepted_nil]
  | append_singleton earlier kind ih =>
    have hleft : ∀ o ∈ kind.occurrences before,
        ((∀ a ∈ accepted earlier (before ++ c :: after), o.clearOf a = true) ↔
          ∀ a ∈ accepted earlier before, o.clearOf a = true) := by
      intro o ho
      have hmatch := isMatch_of_mem_occurrences ho
      constructor
      · exact fun h a ha => h a ((ih a).mpr (Or.inl ha))
      · intro h a ha
        rcases (ih a).mp ha with ha | ⟨b, -, rfl⟩
        · exact h a ha
        · exact clearOf_shift hmatch b (Nat.le_succ _)
    have hright : ∀ o : Occurrence, (∀ a ∈ accepted earlier (before ++ c :: after),
          (o.shift (before.length + 1)).clearOf a = true) ↔
        ∀ a ∈ accepted earlier after, o.clearOf a = true := by
      intro o
      constructor
      · intro h a ha
        rw [← shift_clearOf_shift (before.length + 1)]
        exact h _ ((ih _).mpr (Or.inr ⟨a, ha, rfl⟩))
      · intro h a ha
        rcases (ih a).mp ha with ha | ⟨b, hb, rfl⟩
        · rw [Occurrence.clearOf_comm]
          exact clearOf_shift (isMatch_of_mem_accepted ha) o (Nat.le_succ _)
        · rw [shift_clearOf_shift]
          exact h b hb
    intro o
    simp only [mem_accepted_concat_iff, ih, mem_occurrences_append_separator hc]
    constructor
    · rintro ((ho | ⟨a, ha, rfl⟩) | ⟨ho | ⟨a, ha, rfl⟩, hclear⟩)
      · exact Or.inl (Or.inl ho)
      · exact Or.inr ⟨a, Or.inl ha, rfl⟩
      · exact Or.inl (Or.inr ⟨ho, (hleft o ho).mp fun a ha => hclear a ((ih a).mp ha)⟩)
      · exact Or.inr ⟨a, Or.inr ⟨ha, (hright a).mp fun b hb => hclear b ((ih b).mp hb)⟩, rfl⟩
    · rintro ((ho | ⟨ho, hclear⟩) | ⟨a, ha | ⟨ha, hclear⟩, rfl⟩)
      · exact Or.inl (Or.inl ho)
      · exact Or.inr ⟨Or.inl ho, fun a ha => (hleft o ho).mpr hclear a ((ih a).mpr ha)⟩
      · exact Or.inl (Or.inr ⟨a, ha, rfl⟩)
      · exact Or.inr ⟨Or.inr ⟨a, ha, rfl⟩, fun b hb => (hright a).mpr hclear b ((ih b).mpr hb)⟩

/-- **The schedule of a line falls apart at a separator.** -/
theorem ofLine_append_separator (hc : isSeparator c = true) (table : List Kind)
    (before after : List Char) :
    ofLine table (before ++ c :: after) =
      ofLine table before ++
        (ofLine table after).map (Instruction.shift (before.length + 1)) := by
  obtain ⟨left, hleft, hleftSorted, hleftLine⟩ := exists_sorted_accepted table before
  obtain ⟨right, hright, hrightSorted, hrightLine⟩ := exists_sorted_accepted table after
  have hsorted : (left ++ right.map (Occurrence.shift (before.length + 1))).Pairwise
      fun a b => a.stop ≤ b.offset := by
    refine List.pairwise_append.mpr ⟨hleftSorted, ?_, fun a ha b hb => ?_⟩
    · rw [List.pairwise_map]
      exact hrightSorted.imp fun h => by simpa using h
    · obtain ⟨b, -, rfl⟩ := List.mem_map.mp hb
      have := (isMatch_of_mem_accepted (hleft.mem_iff.mp ha)).stop_le
      rw [Occurrence.shift_offset]
      omega
  rw [hleftLine, hrightLine, ofLine_eq_of_mem_iff hsorted fun o => ?_]
  · rw [List.map_append, List.map_map, List.map_map]
    rfl
  · rw [mem_accepted_append_separator hc, List.mem_append, List.mem_map]
    simp only [hleft.mem_iff, hright.mem_iff]

/-! ## What a schedule says -/

/-- What instructions say, wherever they stand: kinds and arguments, in order. -/
def wording (instructions : List Instruction) : List (Kind × String) :=
  instructions.map fun i => (i.kind, i.argument)

theorem wording_append (before later : List Instruction) :
    wording (before ++ later) = wording before ++ wording later :=
  List.map_append

theorem wording_map_shift (n : Nat) (instructions : List Instruction) :
    wording (instructions.map (Instruction.shift n)) = wording instructions := by
  unfold wording
  rw [List.map_map]
  rfl

theorem ofLine_nil (table : List Kind) : ofLine table [] = [] := by
  have hsorted : ([] : List Occurrence).Pairwise fun a b => a.stop ≤ b.offset := List.Pairwise.nil
  refine ofLine_eq_of_mem_iff hsorted fun o => ⟨fun ho => ?_, fun ho => absurd ho List.not_mem_nil⟩
  have hmatch := isMatch_of_mem_accepted ho
  rw [Occurrence.IsMatch, List.drop_nil, Kind.match?_nil] at hmatch
  cases hmatch

theorem wording_ofLine_nil (table : List Kind) : wording (ofLine table []) = [] := by
  rw [ofLine_nil]
  rfl

theorem wording_ofLine_append_break (table : List Kind) (run rest : List Char)
    (hc : Text.isLineBreak c = true) :
    wording (ofLine table (run ++ c :: rest)) =
      wording (ofLine table run) ++ wording (ofLine table rest) := by
  rw [ofLine_append_separator (isSeparator_of_isLineBreak hc), wording_append, wording_map_shift]

/-- **A text says what its lines say.** No instruction contains a line break, so it comes to the
same whether the schedule is made of the whole text or line by line. -/
theorem wording_flatMap_lines (table : List Kind) (text : List Char) :
    (Text.lines text).flatMap (fun line => wording (ofLine table line)) =
      wording (ofLine table text) :=
  Text.flatMap_lines (wording_ofLine_nil table)
    (fun run _ rest => wording_ofLine_append_break table run rest) text

end Schedule
end Chiptune
