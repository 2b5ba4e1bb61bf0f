import Mathlib.Data.List.Basic
import Chiptune.Proofs.Instruction.Priority

/-!
# Which position of a table gets which text

`mem_accepted_iff` (`Priority.lean`) asks for the *kinds* that come earlier in a table. This file
asks for the *positions*, so that a kind that stands in a table twice has two turns. A share-out of
a line gives each position what its own search finds, except what shares a character with anything
that an earlier position was given (`Resolves`). There is exactly one share-out for any table, even
a table with repeats or without some of the kinds, and it is what the loop over the table comes to
(`ofLine_resolves`).

A share-out knows neither marks nor the order in which one search finds its matches. The loop has
nothing but its marks to go by, and sets them match by match; what it accepts in one turn is read
here off what has been accepted before the turn and after it (`acceptedAt`).
-/

namespace Chiptune
namespace Schedule

variable {table : List Kind} {line : List Char} {o : Occurrence} {p : Nat}

/-! ## What a position accepts -/

/-- What the loop accepts in the turn of a position: what the accepted occurrences grow by. -/
def acceptedAt (table : List Kind) (line : List Char) (p : Nat) : List Occurrence :=
  (accepted (table.take (p + 1)) line).drop (accepted (table.take p) line).length

theorem acceptedAt_of_getElem? {kind : Kind} (h : table[p]? = some kind) :
    acceptedAt table line p =
      (kind.occurrences line).filter fun o => (accepted (table.take p) line).all o.clearOf := by
  unfold acceptedAt
  rw [List.take_add_one, h, Option.toList_some, accepted_concat, List.drop_left]

theorem acceptedAt_of_none (h : table[p]? = none) : acceptedAt table line p = [] := by
  unfold acceptedAt
  rw [List.take_add_one, h, Option.toList_none, List.append_nil, List.drop_length]

/-- No turn takes back what was accepted before it. -/
theorem accepted_take_succ (table : List Kind) (line : List Char) (p : Nat) :
    accepted (table.take (p + 1)) line =
      accepted (table.take p) line ++ acceptedAt table line p := by
  cases h : table[p]? with
  | none =>
    rw [acceptedAt_of_none h, List.take_add_one, h, Option.toList_none, List.append_nil,
      List.append_nil]
  | some kind =>
    rw [acceptedAt_of_getElem? h, List.take_add_one, h, Option.toList_some, accepted_concat]

/-- The table accepts what its positions accept, one after the other. -/
theorem accepted_take_eq (table : List Kind) (line : List Char) (p : Nat) :
    accepted (table.take p) line = (List.range p).flatMap (acceptedAt table line) := by
  induction p with
  | zero => exact accepted_nil line
  | succ p ih =>
    rw [accepted_take_succ, ih, List.range_succ, List.flatMap_append, List.flatMap_singleton]

theorem mem_accepted_take_iff :
    o ∈ accepted (table.take p) line ↔ ∃ q < p, o ∈ acceptedAt table line q := by
  simp [accepted_take_eq]

theorem mem_acceptedAt_iff :
    o ∈ acceptedAt table line p ↔
      ∃ kind, table[p]? = some kind ∧ o ∈ kind.occurrences line ∧
        ∀ q < p, ∀ a ∈ acceptedAt table line q, o.clearOf a = true := by
  have hearlier : (∀ a ∈ accepted (table.take p) line, o.clearOf a = true) ↔
      ∀ q < p, ∀ a ∈ acceptedAt table line q, o.clearOf a = true := by
    simp only [mem_accepted_take_iff]
    exact ⟨fun h q hq a ha => h a ⟨q, hq, ha⟩, fun h a ⟨q, hq, ha⟩ => h q hq a ha⟩
  rw [← hearlier]
  cases h : table[p]? with
  | none => simp [acceptedAt_of_none h]
  | some kind => simp [acceptedAt_of_getElem? h]

theorem isMatch_of_mem_acceptedAt (h : o ∈ acceptedAt table line p) : o.IsMatch line := by
  obtain ⟨kind, -, hfound, -⟩ := mem_acceptedAt_iff.mp h
  exact isMatch_of_mem_occurrences hfound

/-! ## Share-outs -/

/-- A share-out of a line among the positions of a table: each gets what its own search finds and
what shares no character with anything that an earlier position got. -/
def Resolves (table : List Kind) (line : List Char) (gets : Nat → Occurrence → Prop) : Prop :=
  ∀ p o, gets p o ↔
    ∃ kind, table[p]? = some kind ∧ o ∈ kind.occurrences line ∧
      ∀ q < p, ∀ a, gets q a → ¬ a.Shares o

theorem resolves_acceptedAt (table : List Kind) (line : List Char) :
    Resolves table line fun p o => o ∈ acceptedAt table line p := by
  intro p o
  refine mem_acceptedAt_iff.trans (exists_congr fun kind => ?_)
  refine and_congr_right fun _ => and_congr_right fun hfound => ?_
  have ho := (isMatch_of_mem_occurrences hfound).length_pos
  refine forall₂_congr fun q _ => forall₂_congr fun a ha => ?_
  have hpos := (isMatch_of_mem_acceptedAt ha).length_pos
  rw [Occurrence.clearOf_comm, Occurrence.clearOf_iff_not_shares hpos ho]

/-- **There is only one share-out.** What a position gets asks about earlier positions alone. -/
theorem Resolves.unique {f g : Nat → Occurrence → Prop} (hf : Resolves table line f)
    (hg : Resolves table line g) (p : Nat) : ∀ o, f p o ↔ g p o := by
  induction p using Nat.strong_induction_on with
  | _ p ih =>
    intro o
    rw [hf p o, hg p o]
    refine exists_congr fun kind => and_congr_right fun _ => and_congr_right fun _ => ?_
    exact forall₂_congr fun q hq => forall_congr' fun a => imp_congr (ih q hq a) Iff.rfl

/-! ## The schedule -/

/-- An instruction of a schedule is a match of its kind where it stands, and its argument is what
the match captures. -/
theorem match?_of_mem_ofLine {i : Instruction} (h : i ∈ ofLine table line) :
    i.kind ∈ table ∧ ∃ length,
      i.kind.match? (line.drop i.offset) = some ⟨length, i.argument.toList⟩ ∧
        i.kind.Shape ((line.drop i.offset).take length) i.argument.toList := by
  obtain ⟨o, ho, rfl⟩ := mem_ofLine_iff.mp h
  have hmatch := isMatch_of_mem_accepted ho
  obtain ⟨token, rest, htext, hshape, -, hlength⟩ := hmatch.shape
  refine ⟨(mem_accepted_iff.mp ho).1, o.length, hmatch, ?_⟩
  rw [htext, ← hlength, List.take_left]
  exact hshape

/-- When the turn of a position comes, the marked characters are those of what the positions before
it have accepted. -/
theorem taken_take_iff {i : Nat} :
    (Claims.ofTable (table.take p) line).taken[i]? = some true ↔
      ∃ q < p, ∃ a ∈ acceptedAt table line q, a.Has i := by
  rw [taken_iff]
  simp only [mem_accepted_take_iff]
  exact ⟨fun ⟨a, ⟨q, hq, ha⟩, hi⟩ => ⟨q, hq, a, ha, hi⟩,
    fun ⟨q, hq, a, ha, hi⟩ => ⟨a, ⟨q, hq, ha⟩, hi⟩⟩

/-- **A schedule shares out its line by the positions of the table.** The accepted occurrences are
those that the positions get in the one share-out there is; no two of them share a character, and
their characters are the ones that the search has marked. The schedule lists them by rising offsets,
each with what its kind captures there. -/
theorem ofLine_resolves (table : List Kind) (line : List Char) :
    (accepted table line = (List.range table.length).flatMap (acceptedAt table line) ∧
      Resolves table line (fun p o => o ∈ acceptedAt table line p) ∧
      ∀ gets, Resolves table line gets → ∀ p o, gets p o ↔ o ∈ acceptedAt table line p) ∧
    (accepted table line).Pairwise (fun a b => ¬ a.Shares b) ∧
    (∀ p i, (Claims.ofTable (table.take p) line).taken[i]? = some true ↔
      ∃ q < p, ∃ a ∈ acceptedAt table line q, a.Has i) ∧
    (ofLine table line).Perm ((accepted table line).map (·.toInstruction)) ∧
    (ofLine table line).Pairwise (fun a b => a.offset < b.offset) ∧
    ∀ i ∈ ofLine table line, i.kind ∈ table ∧ ∃ length,
      i.kind.match? (line.drop i.offset) = some ⟨length, i.argument.toList⟩ ∧
        i.kind.Shape ((line.drop i.offset).take length) i.argument.toList := by
  have hpos : ∀ o ∈ accepted table line, 0 < o.length := fun o ho =>
    (isMatch_of_mem_accepted ho).length_pos
  obtain ⟨sorted, hperm, hsorted, hline⟩ := exists_sorted_accepted table line
  refine ⟨⟨?_, resolves_acceptedAt table line, fun gets hgets p => ?_⟩, ?_,
    fun p i => taken_take_iff, ?_, ?_, fun i hi => match?_of_mem_ofLine hi⟩
  · rw [← accepted_take_eq, List.take_length]
  · exact hgets.unique (resolves_acceptedAt table line) p
  · exact (pairwise_accepted table line).imp_of_mem fun {a b} ha hb hclear =>
      (Occurrence.clearOf_iff_not_shares (hpos a ha) (hpos b hb)).mp hclear
  · rw [hline]
    exact hperm.map _
  · rw [hline, List.pairwise_map]
    refine hsorted.imp_of_mem fun {a b} ha _ hle => ?_
    have := hpos a (hperm.mem_iff.mp ha)
    rw [Occurrence.stop_eq] at hle
    omega

end Schedule
end Chiptune
