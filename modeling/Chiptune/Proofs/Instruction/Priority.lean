import Mathlib.Data.List.Basic
import Mathlib.Data.List.Induction
import Chiptune.Proofs.Instruction.Marks

/-!
# What a table accepts

A table is gone through kind by kind, and what a kind may take depends on what was accepted in the
turns before (`Marks.lean`). Here that loop is replaced by an equation, as the scan was
(`Scan.lean`): an occurrence is accepted iff the search for its kind finds it and it shares no
character with anything accepted for an earlier kind (`mem_accepted_iff`). It holds for every table,
also one that names a kind twice: a kind that has had its turn adds nothing the second time
(`accepted_concat_of_mem`).

The last section turns a statement about *which* occurrences are accepted into one about the
schedule itself. Accepted occurrences do not overlap, so their offsets differ and the sort has one
answer (`ofLine_eq_of_mem_iff`).
-/

namespace Chiptune
namespace Schedule

variable {table : List Kind} {line : List Char} {o : Occurrence}

/-! ## One kind after the other -/

theorem mem_occurrences_iff {kind : Kind} :
    o ∈ kind.occurrences line ↔
      o.kind = kind ∧ o.IsMatch line ∧ ∀ a ∈ kind.occurrences line, ¬ a.Covers o.offset := by
  rw [occurrences_eq_scan, mem_scan_iff, beq_iff_eq]

theorem kind_eq_of_mem_occurrences {kind : Kind} (h : o ∈ kind.occurrences line) :
    o.kind = kind :=
  (mem_occurrences_iff.mp h).1

theorem mem_accepted_concat_iff {before : List Kind} {kind : Kind} :
    o ∈ accepted (before ++ [kind]) line ↔
      o ∈ accepted before line ∨
        o ∈ kind.occurrences line ∧ ∀ a ∈ accepted before line, o.clearOf a = true := by
  rw [accepted_concat, List.mem_append, List.mem_filter, List.all_eq_true]

/-- A kind that has had its turn leaves nothing open: what its search finds has been accepted, or
something that has been accepted is in its way. -/
theorem accepted_or_met {kind : Kind} (hfound : o ∈ kind.occurrences line) (hk : kind ∈ table) :
    o ∈ accepted table line ∨ ∃ a ∈ accepted table line, ¬ o.clearOf a = true := by
  induction table using List.reverseRecOn with
  | nil => exact absurd hk List.not_mem_nil
  | append_singleton before last ih =>
    by_cases hmet : ∀ a ∈ accepted before line, o.clearOf a = true
    · refine Or.inl (mem_accepted_concat_iff.mpr ?_)
      rcases List.mem_append.mp hk with hk | hk
      · refine Or.inl ((ih hk).resolve_right ?_)
        rintro ⟨a, ha, hclear⟩
        exact hclear (hmet a ha)
      · rw [← List.mem_singleton.mp hk]
        exact Or.inr ⟨hfound, hmet⟩
    · push Not at hmet
      obtain ⟨a, ha, hclear⟩ := hmet
      exact Or.inr ⟨a, mem_accepted_concat_iff.mpr (Or.inl ha), by simpa using hclear⟩

/-- A kind that is named again adds nothing. -/
theorem accepted_concat_of_mem {before : List Kind} {kind : Kind} (hk : kind ∈ before)
    (line : List Char) : accepted (before ++ [kind]) line = accepted before line := by
  rw [accepted_concat, List.append_right_eq_self, List.filter_eq_nil_iff]
  intro o hfound hclear
  rw [List.all_eq_true] at hclear
  rcases accepted_or_met hfound hk with hmem | ⟨a, ha, hmet⟩
  · have hself := (isMatch_of_mem_occurrences hfound).not_clearOf_self
    rw [hclear o hmem] at hself
    cases hself
  · exact hmet (hclear a ha)

/-! ## By the kinds of the table -/

/-- What a table accepts is what the search for one of its kinds finds, clear of everything accepted
for an earlier kind. -/
def ByKind (table : List Kind) (line : List Char) : Prop :=
  ∀ o, o ∈ accepted table line ↔
    o.kind ∈ table ∧ o ∈ o.kind.occurrences line ∧
      ∀ a ∈ accepted table line, table.idxOf a.kind < table.idxOf o.kind → o.clearOf a = true

theorem ByKind.concat_of_mem {before : List Kind} {kind : Kind} (h : ByKind before line)
    (hk : kind ∈ before) : ByKind (before ++ [kind]) line := by
  intro o
  have hin : o.kind ∈ before ++ [kind] ↔ o.kind ∈ before := by
    rw [List.mem_append, List.mem_singleton, or_iff_left_iff_imp]
    rintro heq
    rwa [heq]
  rw [accepted_concat_of_mem hk, h o, hin]
  refine and_congr_right fun ho => and_congr_right fun _ => forall₂_congr fun a ha => ?_
  rw [List.idxOf_append_of_mem ho, List.idxOf_append_of_mem ((h a).mp ha).1]

theorem ByKind.concat_of_notMem {before : List Kind} {kind : Kind} (h : ByKind before line)
    (hk : kind ∉ before) : ByKind (before ++ [kind]) line := by
  have hlast : (before ++ [kind]).idxOf kind = before.length := by
    rw [List.idxOf_append_of_notMem hk, List.idxOf_cons_self, Nat.add_zero]
  have hlt : ∀ {k : Kind}, k ∈ before → (before ++ [kind]).idxOf k < before.length := by
    intro k hk
    rw [List.idxOf_append_of_mem hk]
    exact List.idxOf_lt_length_of_mem hk
  intro o
  by_cases ho : o.kind = kind
  · -- It comes last, so everything accepted before it may stand in its way.
    have hnew : o ∉ accepted before line := fun hmem => hk (ho ▸ ((h o).mp hmem).1)
    rw [mem_accepted_concat_iff, or_iff_right hnew, ho, hlast]
    constructor
    · rintro ⟨hfound, hclear⟩
      refine ⟨List.mem_concat_self, hfound, fun a ha hidx => ?_⟩
      rcases mem_accepted_concat_iff.mp ha with ha | ⟨ha, -⟩
      · exact hclear a ha
      · rw [kind_eq_of_mem_occurrences ha, hlast] at hidx
        exact absurd hidx (Nat.lt_irrefl _)
    · rintro ⟨-, hfound, hclear⟩
      refine ⟨hfound, fun a ha => ?_⟩
      exact hclear a (mem_accepted_concat_iff.mpr (Or.inl ha)) (hlt ((h a).mp ha).1)
  · -- What the new kind adds comes behind it.
    have hkept : o ∈ accepted (before ++ [kind]) line ↔ o ∈ accepted before line :=
      mem_accepted_concat_iff.trans
        (or_iff_left fun hmem => ho (kind_eq_of_mem_occurrences hmem.1))
    have hin : o.kind ∈ before ++ [kind] ↔ o.kind ∈ before := by
      rw [List.mem_append, List.mem_singleton, or_iff_left ho]
    rw [hkept, h o, hin]
    refine and_congr_right fun hmem => and_congr_right fun _ => ?_
    constructor
    · intro hclear a ha hidx
      rcases mem_accepted_concat_iff.mp ha with ha | ⟨ha, -⟩
      · rw [List.idxOf_append_of_mem ((h a).mp ha).1, List.idxOf_append_of_mem hmem] at hidx
        exact hclear a ha hidx
      · rw [kind_eq_of_mem_occurrences ha, hlast] at hidx
        exact absurd hidx (Nat.lt_asymm (hlt hmem))
    · intro hclear a ha hidx
      refine hclear a (mem_accepted_concat_iff.mpr (Or.inl ha)) ?_
      rwa [List.idxOf_append_of_mem ((h a).mp ha).1, List.idxOf_append_of_mem hmem]

/-- **What a table accepts**: what the search for a kind of the table finds, clear of everything
accepted for an earlier kind. -/
theorem mem_accepted_iff :
    o ∈ accepted table line ↔
      o.kind ∈ table ∧ o ∈ o.kind.occurrences line ∧
        ∀ a ∈ accepted table line, table.idxOf a.kind < table.idxOf o.kind →
          o.clearOf a = true := by
  have hbyKind : ByKind table line := by
    induction table using List.reverseRecOn with
    | nil => intro o; simp [accepted_nil]
    | append_singleton before kind ih =>
      by_cases hk : kind ∈ before
      · exact ih.concat_of_mem hk
      · exact ih.concat_of_notMem hk
  exact hbyKind o

theorem isMatch_of_mem_accepted (h : o ∈ accepted table line) : o.IsMatch line :=
  isMatch_of_mem_occurrences (mem_accepted_iff.mp h).2.1

theorem mem_ofLine_iff {instruction : Instruction} :
    instruction ∈ ofLine table line ↔
      ∃ o ∈ accepted table line, o.toInstruction = instruction := by
  unfold ofLine ofAccepted
  rw [List.mem_map]
  refine exists_congr fun o => and_congr_left fun _ => ?_
  exact (List.mergeSort_perm _ _).mem_iff

/-- **Every instruction of a schedule is well formed**: its argument is what a token of its kind
captures. -/
theorem shape_of_mem_ofLine {instruction : Instruction} (h : instruction ∈ ofLine table line) :
    ∃ token, instruction.kind.Shape token instruction.argument.toList := by
  obtain ⟨o, ho, rfl⟩ := mem_ofLine_iff.mp h
  obtain ⟨token, rest, -, hshape, -, -⟩ := (isMatch_of_mem_accepted ho).shape
  exact ⟨token, hshape⟩

/-! ## No character twice, and the order of the line -/

/-- Accepted occurrences share no character. -/
theorem pairwise_accepted (table : List Kind) (line : List Char) :
    (accepted table line).Pairwise fun a b => a.clearOf b = true := by
  induction table using List.reverseRecOn with
  | nil => exact List.Pairwise.nil
  | append_singleton before kind ih =>
    rw [accepted_concat]
    refine List.pairwise_append.mpr ⟨ih, ?_, fun a ha b hb => ?_⟩
    · exact (pairwise_occurrences kind line).sublist List.filter_sublist
    · rw [Occurrence.clearOf_comm]
      exact List.all_eq_true.mp (List.mem_filter.mp hb).2 a ha

/-- The schedule lists the accepted occurrences, each behind the end of the one before. -/
theorem exists_sorted_accepted (table : List Kind) (line : List Char) :
    ∃ sorted : List Occurrence, sorted.Perm (accepted table line) ∧
      sorted.Pairwise (fun a b => a.stop ≤ b.offset) ∧
        ofLine table line = sorted.map (·.toInstruction) := by
  have hperm := List.mergeSort_perm (accepted table line) fun a b => a.offset ≤ b.offset
  refine ⟨_, hperm, ?_, rfl⟩
  have horder : ((accepted table line).mergeSort fun a b => a.offset ≤ b.offset).Pairwise
      fun a b => a.offset ≤ b.offset := by
    have := @List.pairwise_mergeSort _ (fun a b : Occurrence => decide (a.offset ≤ b.offset))
      (by intro a b c; simp only [decide_eq_true_eq]; omega)
      (by intro a b; simp only [Bool.or_eq_true, decide_eq_true_eq]; omega) (accepted table line)
    simpa only [decide_eq_true_eq] using this
  have hclear : ((accepted table line).mergeSort fun a b => a.offset ≤ b.offset).Pairwise
      fun a b => a.clearOf b = true :=
    (hperm.pairwise_iff fun hab => by rw [Occurrence.clearOf_comm]; exact hab).mpr
      (pairwise_accepted table line)
  -- Of two occurrences that are clear of each other, the one that begins first ends first.
  refine (horder.and hclear).imp_of_mem fun {a b} _ hb hab => ?_
  have := (isMatch_of_mem_accepted (hperm.mem_iff.mp hb)).length_pos
  rcases Occurrence.clearOf_iff.mp hab.2 with hle | hle
  · exact hle
  · rw [Occurrence.stop_eq] at hle
    omega

/-- **The schedule is settled by which occurrences are accepted**: it lists them in the order in
which they stand in the line. -/
theorem ofLine_eq_of_mem_iff {sorted : List Occurrence}
    (hsorted : sorted.Pairwise fun a b => a.stop ≤ b.offset)
    (h : ∀ o, o ∈ accepted table line ↔ o ∈ sorted) :
    ofLine table line = sorted.map (·.toInstruction) := by
  obtain ⟨found, hperm, hfound, hline⟩ := exists_sorted_accepted table line
  rw [hline, Occurrence.eq_of_mem_iff_of_sorted hfound hsorted ?_ fun o => ?_]
  · exact fun o ho => (isMatch_of_mem_accepted (hperm.mem_iff.mp ho)).length_pos
  · exact hperm.mem_iff.trans (h o)

end Schedule
end Chiptune
