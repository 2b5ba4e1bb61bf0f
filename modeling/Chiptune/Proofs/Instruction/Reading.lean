import Chiptune.Proofs.Instruction.Priority

/-!
# Reading a line once

The schedule is made by eleven searches over the whole line, a rule about overlaps and a sort. A
reader needs none of that: `Reads` goes through the line once, takes an instruction where one
stands and steps over a character where none does. This file proves that the two agree
(`reads_iff_eq_ofLine`), on every line.

**The argument has two halves**, one for each way the searches could go wrong. A higher claim could
take a character out of the middle of an instruction that the reader takes: it cannot, because
inside an instruction nothing begins that claims earlier (`Occurrence.rank_lt_of_covers`). And a
search could miss an instruction because a match of its kind that is rejected *later* made it
resume too far to the right: the only kind whose matches reach over each other is the timed note,
and there whatever has claimed the start of the longer match has claimed all its digits
(`Occurrence.covers_of_covers_timedNote`).
-/

namespace Chiptune
namespace Schedule

/-! ## The reader -/

/-- Reading a text once from the left, from an offset on. Which kind is taken is left open where an
instruction stands; `reads_iff_eq_ofLine` says that there is never a choice. -/
inductive Reads : Nat → List Char → List Instruction → Prop
  | stop {offset : Nat} : Reads offset [] []
  | skip {offset : Nat} {c : Char} {rest : List Char} {found : List Instruction}
      (hnone : ∀ kind ∈ Kind.table, kind.match? (c :: rest) = none)
      (hlater : Reads (offset + 1) rest found) : Reads offset (c :: rest) found
  | take {offset : Nat} {text : List Char} {kind : Kind} {m : Match} {found : List Instruction}
      (hkind : kind ∈ Kind.table) (hmatch : kind.match? text = some m)
      (hlater : Reads (offset + m.length) (text.drop m.length) found) :
      Reads offset text (⟨offset, kind, String.ofList m.argument⟩ :: found)

/-- What the reader takes, with the text it takes up: the scan that wants every kind. -/
def tokens (line : List Char) : List Occurrence := scan (fun _ => true) line

/-- Skipping is dropping. -/
theorem scanFrom_skip (wanted : Kind → Bool) (text : List Char) :
    ∀ offset skip, scanFrom wanted offset skip text =
      scanFrom wanted (offset + skip) 0 (text.drop skip) := by
  induction text with
  | nil => intro offset skip; simp [scanFrom]
  | cons c rest ih =>
    intro offset skip
    cases skip with
    | zero => rfl
    | succ skip =>
      rw [List.drop_succ_cons, show offset + (skip + 1) = offset + 1 + skip by omega]
      exact ih (offset + 1) skip

theorem scanFrom_of_match {wanted : Kind → Bool} {offset : Nat} {text : List Char} {kind : Kind}
    {m : Match} (hwanted : wanted kind = true) (h : kind.match? text = some m) :
    scanFrom wanted offset 0 text =
      ⟨⟨offset, kind, String.ofList m.argument⟩, m.length⟩ ::
        scanFrom wanted (offset + m.length) 0 (text.drop m.length) := by
  cases text with
  | nil => rw [Kind.match?_nil] at h; cases h
  | cons c rest =>
    have hpos : 0 < m.length := Kind.length_pos_of_match? h
    obtain ⟨n, hn⟩ : ∃ n, m.length = n + 1 := ⟨m.length - 1, by omega⟩
    simp only [scanFrom, Kind.firstMatch?_eq_some_iff.mpr ⟨hwanted, h⟩]
    rw [scanFrom_skip, hn, List.drop_succ_cons, Nat.add_sub_cancel,
      show offset + 1 + n = offset + (n + 1) by omega]

theorem scanFrom_of_no_match {wanted : Kind → Bool} {offset : Nat} {c : Char} {rest : List Char}
    (h : ∀ kind, wanted kind = true → kind.match? (c :: rest) = none) :
    scanFrom wanted offset 0 (c :: rest) = scanFrom wanted (offset + 1) 0 rest := by
  have hnone : Kind.firstMatch? wanted (c :: rest) = none := by
    cases hfirst : Kind.firstMatch? wanted (c :: rest) with
    | none => rfl
    | some found =>
      obtain ⟨hwanted, hm⟩ := Kind.firstMatch?_eq_some_iff.mp hfirst
      rw [h _ hwanted] at hm
      cases hm
  simp only [scanFrom, hnone]

/-- The reader has one answer, and the scan computes it. -/
theorem reads_iff_eq_scanFrom {offset : Nat} {text : List Char} {found : List Instruction} :
    Reads offset text found ↔
      found = (scanFrom (fun _ => true) offset 0 text).map (·.toInstruction) := by
  constructor
  · intro h
    induction h with
    | stop => rfl
    | skip hnone _ ih =>
      rw [scanFrom_of_no_match fun kind _ => hnone kind (Kind.mem_table kind)]
      exact ih
    | take _ hmatch _ ih => rw [scanFrom_of_match rfl hmatch, List.map_cons, ← ih]
  · rintro rfl
    -- By induction on how much text is left: a match takes at least one character.
    induction hlength : text.length using Nat.strong_induction_on generalizing offset text with
    | _ n ih =>
      cases text with
      | nil => exact .stop
      | cons c rest =>
        by_cases hany : ∃ kind : Kind, ∃ m, kind.match? (c :: rest) = some m
        · obtain ⟨kind, m, hm⟩ := hany
          have hpos : 0 < m.length := Kind.length_pos_of_match? hm
          rw [scanFrom_of_match rfl hm]
          refine .take (Kind.mem_table kind) hm (ih _ ?_ rfl)
          rw [← hlength, List.length_drop, List.length_cons]
          omega
        · have hnone : ∀ kind : Kind, kind.match? (c :: rest) = none := by
            intro kind
            cases hm : kind.match? (c :: rest) with
            | none => rfl
            | some m => exact absurd ⟨kind, m, hm⟩ hany
          rw [scanFrom_of_no_match fun kind _ => hnone kind]
          refine .skip (fun kind _ => hnone kind) (ih _ ?_ rfl)
          rw [← hlength, List.length_cons]
          exact Nat.lt_succ_self _

/-! ## The two halves -/

variable {line : List Char} {o : Occurrence}

theorem mem_tokens_iff :
    o ∈ tokens line ↔ o.IsMatch line ∧ ∀ a ∈ tokens line, ¬ a.Covers o.offset := by
  unfold tokens
  rw [mem_scan_iff]
  simp

/-- **No search misses what the reader takes.** Only a longer timed note of the same digits could
have been found in its place; but then the reader stood before that one, or inside something that
takes all of its digits, and either way not here. -/
theorem mem_occurrences_of_mem_tokens (h : o ∈ tokens line) : o ∈ o.kind.occurrences line := by
  obtain ⟨hmatch, hfree⟩ := mem_tokens_iff.mp h
  refine mem_occurrences_iff.mpr ⟨rfl, hmatch, fun a ha hcover => ?_⟩
  obtain ⟨hkind, hamatch, -⟩ := mem_occurrences_iff.mp ha
  rcases Occurrence.rank_lt_of_covers hamatch hmatch hcover with hlt | ⟨hak, hok⟩
  · rw [hkind] at hlt
    exact absurd hlt (Nat.lt_irrefl _)
  · by_cases htoken : a ∈ tokens line
    · exact hfree a htoken hcover
    · obtain ⟨t, ht, htcover⟩ := covered_of_not_mem_scan rfl hamatch htoken
      exact hfree t ht (Occurrence.covers_of_covers_timedNote hamatch hmatch
        (isMatch_of_mem_scan ht) hak hok hcover htcover)

/-- **No search finds what the reader passes over**, unless something that claims earlier is in the
way. -/
theorem mem_tokens_of_mem_occurrences {kind : Kind} (h : o ∈ kind.occurrences line)
    (hclear : ∀ t ∈ tokens line, t.kind.rank < kind.rank → o.clearOf t = true) :
    o ∈ tokens line := by
  obtain ⟨rfl, hmatch, hfree⟩ := mem_occurrences_iff.mp h
  refine mem_tokens_iff.mpr ⟨hmatch, fun t ht hcover => ?_⟩
  have htmatch : t.IsMatch line := isMatch_of_mem_scan ht
  rcases Occurrence.rank_lt_of_covers htmatch hmatch hcover with hlt | ⟨htk, hok⟩
  · rcases Occurrence.clearOf_iff.mp (hclear t ht hlt) with hle | hle
    · have := hcover.1
      rw [Occurrence.stop_eq] at hle
      omega
    · have := hcover.2
      omega
  · have hfound : t ∈ o.kind.occurrences line := by
      rw [hok, ← htk]
      exact mem_occurrences_of_mem_tokens ht
    exact hfree t hfound hcover

/-- **The table accepts what the reader takes.** By induction on the rank of the kind: the question
whether an occurrence is accepted asks only about kinds of a smaller rank. -/
theorem mem_accepted_iff_mem_tokens : o ∈ accepted Kind.table line ↔ o ∈ tokens line := by
  induction hrank : o.kind.rank using Nat.strong_induction_on generalizing o with
  | _ n ih =>
    have hlower : ∀ a : Occurrence, a.kind.rank < o.kind.rank →
        (a ∈ accepted Kind.table line ↔ a ∈ tokens line) :=
      fun a ha => ih _ (by omega) rfl
    rw [mem_accepted_iff]
    constructor
    · rintro ⟨-, hfound, hclear⟩
      exact mem_tokens_of_mem_occurrences hfound fun t ht hlt =>
        hclear t ((hlower t hlt).mpr ht) hlt
    · intro h
      refine ⟨Kind.mem_table _, mem_occurrences_of_mem_tokens h, fun a ha hlt => ?_⟩
      refine clearOf_of_mem_scan h ((hlower a hlt).mp ha) ?_
      rintro rfl
      exact absurd hlt (Nat.lt_irrefl _)

theorem ofLine_table (line : List Char) :
    ofLine Kind.table line = (tokens line).map (·.toInstruction) :=
  ofLine_eq_of_mem_iff (pairwise_scan _ line) fun _ => mem_accepted_iff_mem_tokens

/-- **The schedule of a line is what one reading of it finds**, and nothing else is: eleven
searches, the rule about overlaps and the sort neither lose nor add nor move an instruction. -/
theorem reads_iff_eq_ofLine {line : List Char} {found : List Instruction} :
    Reads 0 line found ↔ found = ofLine Kind.table line := by
  rw [ofLine_table]
  exact reads_iff_eq_scanFrom

/-! ## What hides an instruction

Only timed notes and notes begin inside numbers and notes. An instruction of any other kind can be
hidden by one thing alone, which is the name of a timbre. -/

/-- An occurrence that is no note, and no part of the name of a timbre, is read. -/
theorem mem_tokens_iff_of_ne_note (htimed : o.kind ≠ .timedNote) (hnote : o.kind ≠ .note) :
    o ∈ tokens line ↔ o ∈ o.kind.occurrences line ∧
      ∀ a ∈ Kind.timbre.occurrences line, ¬ a.Covers o.offset := by
  constructor
  · intro h
    refine ⟨mem_occurrences_of_mem_tokens h, fun a ha => ?_⟩
    have hread : a ∈ tokens line :=
      mem_tokens_of_mem_occurrences ha fun t _ hlt => absurd hlt (Nat.not_lt_zero _)
    exact (mem_tokens_iff.mp h).2 a hread
  · rintro ⟨hfound, hfree⟩
    obtain ⟨-, hmatch, -⟩ := mem_occurrences_iff.mp hfound
    refine mem_tokens_iff.mpr ⟨hmatch, fun t ht hcover => ?_⟩
    rcases Occurrence.admits_of_covers (isMatch_of_mem_scan ht) hmatch hcover with
      ⟨htimbre, -⟩ | ⟨-, hkind⟩ | ⟨-, hkind | hkind⟩
    · exact hfree t (htimbre ▸ mem_occurrences_of_mem_tokens ht) hcover
    · exact htimed hkind
    · exact htimed hkind
    · exact hnote hkind

/-- **The instructions of one kind in a schedule**, for any kind but the two of notes: what its own
search finds outside the names of timbres. -/
theorem filter_ofLine_table {kind : Kind} (htimed : kind ≠ .timedNote) (hnote : kind ≠ .note)
    (line : List Char) :
    (ofLine Kind.table line).filter (·.kind == kind) =
      ((kind.occurrences line).filter fun o =>
        decide (∀ a ∈ Kind.timbre.occurrences line, ¬ a.Covers o.offset)).map (·.toInstruction) := by
  have hmem : ∀ o, o ∈ (tokens line).filter (·.kind == kind) ↔
      o ∈ (kind.occurrences line).filter fun o =>
        decide (∀ a ∈ Kind.timbre.occurrences line, ¬ a.Covers o.offset) := by
    intro o
    rw [List.mem_filter, List.mem_filter, beq_iff_eq, decide_eq_true_iff]
    constructor
    · rintro ⟨hread, rfl⟩
      exact (mem_tokens_iff_of_ne_note htimed hnote).mp hread
    · rintro ⟨hfound, hfree⟩
      obtain ⟨rfl, -, -⟩ := mem_occurrences_iff.mp hfound
      exact ⟨(mem_tokens_iff_of_ne_note htimed hnote).mpr ⟨hfound, hfree⟩, rfl⟩
  have hsorted := Occurrence.eq_of_mem_iff_of_sorted
    ((pairwise_scan (fun _ => true) line).sublist List.filter_sublist)
    ((occurrences_eq_scan kind line ▸ pairwise_scan _ line).sublist List.filter_sublist)
    (fun o ho => (isMatch_of_mem_scan (List.mem_filter.mp ho).1).length_pos) hmem
  rw [ofLine_table, List.filter_map]
  exact congrArg _ hsorted

end Schedule
end Chiptune
