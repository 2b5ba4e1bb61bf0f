import Mathlib.Data.List.Infix
import Mathlib.Data.List.Range
import Chiptune.Proofs.Instruction.Piecewise

/-!
# What a schedule takes of its line

The argument of an instruction is a piece of the line, so no number in it is longer than the longest
run of digits that the line has. And every instruction takes up a character of its own, so a line
has no more instructions than characters.
-/

namespace Chiptune

open Pattern

theorem Kind.Shape.argument_isInfix {kind : Kind} {token argument : List Char}
    (h : kind.Shape token argument) : argument <:+: token := by
  cases h with
  | timbre _ _ => exact ⟨['@', '('], [')'], by simp⟩
  | number _ _ _ => exact (List.suffix_cons _ _).isInfix
  | octaveUp => exact List.nil_infix
  | octaveDown => exact List.nil_infix
  | timedNote _ _ _ => exact List.infix_refl _
  | note _ => exact List.infix_refl _

theorem Occurrence.IsMatch.argument_isInfix {line : List Char} {o : Occurrence}
    (h : o.IsMatch line) : o.argument.toList <:+: line := by
  obtain ⟨token, rest, htext, hshape, -, -⟩ := h.shape
  have htoken : token <:+: line := by
    refine List.IsInfix.trans ?_ (List.drop_suffix o.offset line).isInfix
    rw [htext]
    exact (List.prefix_append _ _).isInfix
  exact hshape.argument_isInfix.trans htoken

namespace Schedule

variable {table : List Kind} {line : List Char}

theorem argument_isInfix_of_mem_occurrences {kind : Kind} {o : Occurrence}
    (h : o ∈ kind.occurrences line) : o.argument.toList <:+: line :=
  (isMatch_of_mem_occurrences h).argument_isInfix

theorem argument_isInfix_of_mem_ofLine {i : Instruction} (h : i ∈ ofLine table line) :
    i.argument.toList <:+: line := by
  obtain ⟨o, ho, rfl⟩ := mem_ofLine_iff.mp h
  exact (isMatch_of_mem_accepted ho).argument_isInfix

/-- **A line has no more instructions than characters**: they all begin at different ones. -/
theorem length_ofLine_le (table : List Kind) (line : List Char) :
    (ofLine table line).length ≤ line.length := by
  obtain ⟨sorted, hperm, hsorted, hline⟩ := exists_sorted_accepted table line
  have hmatch : ∀ o ∈ sorted, o.IsMatch line := fun o ho =>
    isMatch_of_mem_accepted (hperm.mem_iff.mp ho)
  have hnodup : (sorted.map (·.offset)).Nodup := by
    refine List.pairwise_map.mpr (hsorted.imp_of_mem fun {a b} ha _ hab => ?_)
    have := (hmatch a ha).length_pos
    rw [Occurrence.stop_eq] at hab
    omega
  have hsubset : sorted.map (·.offset) ⊆ List.range line.length := by
    intro n hn
    obtain ⟨o, ho, rfl⟩ := List.mem_map.mp hn
    have hpos := (hmatch o ho).length_pos
    have hstop := (hmatch o ho).stop_le
    rw [Occurrence.stop_eq] at hstop
    exact List.mem_range.mpr (by omega)
  have hlength := (List.subperm_of_subset hnodup hsubset).length_le
  rw [List.length_map, List.length_range] at hlength
  rwa [hline, List.length_map]

end Schedule
end Chiptune
