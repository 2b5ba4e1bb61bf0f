import Chiptune.Proofs.Instruction.Priority

/-!
# Which orders of a table matter

A table is an order of claims, and most of it does not matter: two kinds that never meet in any line
may stand in either order, and a kind that has had its turn may be named again. `Kind.Conflicts`
says which kinds can meet, and tables that agree about the order of those make the same schedule of
every line (`ofLine_eq_of_agree`).

The relation is no larger than it has to be. Any two kinds that conflict do meet, all of them in one
line, and there the order of the two shows (`conflicts_iff_exists_line`).
-/

namespace Chiptune

/-! ## Kinds that meet -/

/-- Another kind can claim characters that this one claims as well. The name of a timbre may hold
anything but a mark of an octave; a timed note shares digits with a number and its letter with a
note. -/
def Kind.Contests (kind other : Kind) : Prop :=
  kind = .timbre ∧ other ∉ [.octaveUp, .octaveDown] ∨
    kind = .timedNote ∧
      other ∈ [.volume, .volumeUp, .volumeDown, .octave, .length, .tempo, .note]

/-- Two kinds that can claim the same character, in either order. -/
def Kind.Conflicts (a b : Kind) : Prop := a.Contests b ∨ b.Contests a

instance (a b : Kind) : Decidable (a.Contests b) := inferInstanceAs (Decidable (_ ∨ _))

instance (a b : Kind) : Decidable (a.Conflicts b) := inferInstanceAs (Decidable (_ ∨ _))

theorem Kind.Conflicts.symm {a b : Kind} (h : a.Conflicts b) : b.Conflicts a := Or.symm h

theorem Kind.timedNote_contests {kind : Kind} (h : kind.numberMarks ≠ []) :
    Kind.timedNote.Contests kind := by
  revert h
  cases kind <;> decide

theorem Kind.eq_mark_of_ofHead?_octave {c : Char} {kind : Kind} (h : Kind.ofHead? c = some kind)
    (hkind : kind ∈ [Kind.octaveUp, .octaveDown]) : c = '<' ∨ c = '>' := by
  unfold Kind.ofHead? at h
  repeat' split at h
  all_goals first | exact Or.inl rfl | exact Or.inr rfl | (cases h <;> simp at hkind)

/-- No octave begins inside a timbre. -/
theorem Kind.Shape.not_octave {c d : Char} {inner argument : List Char} {kind : Kind}
    (h : Kind.timbre.Shape (c :: inner) argument) (hd : d ∈ inner)
    (hkind : Kind.ofHead? d = some kind) : kind ∉ [Kind.octaveUp, .octaveDown] := by
  intro hoctave
  have hmark := Kind.eq_mark_of_ofHead?_octave hkind hoctave
  generalize htoken : c :: inner = token at h
  cases h with
  | timbre hne hname =>
    cases htoken
    rcases List.mem_cons.mp hd with rfl | hd
    · revert hmark
      decide
    · rcases List.mem_append.mp hd with hd | hd
      · -- The marks of octaves are no word characters.
        have hword := hname d hd
        revert hword
        rcases hmark with rfl | rfl <;> decide +kernel
      · rw [List.mem_singleton.mp hd] at hmark
        revert hmark
        decide
  | number hnumber _ _ => simp [Kind.numberMarks] at hnumber

namespace Occurrence

variable {line : List Char} {a b : Occurrence}

/-- Where an occurrence of another kind begins inside one, the two kinds conflict. -/
theorem conflicts_of_covers (ha : a.IsMatch line) (hb : b.IsMatch line) (hne : a.kind ≠ b.kind)
    (h : a.Covers b.offset) : a.kind.Conflicts b.kind := by
  obtain ⟨c, inner, d, hshape, hd, hkind⟩ := exists_inner_of_covers ha hb h
  rcases hshape.admits hd hkind with ⟨htimbre, -⟩ | ⟨hmarks, htimed⟩ | ⟨htimed, hnote⟩
  · rw [htimbre] at hshape
    exact Or.inl (Or.inl ⟨htimbre, hshape.not_octave hd hkind⟩)
  · rw [htimed]
    exact Or.inr (Kind.timedNote_contests hmarks)
  · have hnote : b.kind = .note := hnote.resolve_left fun h => hne (htimed.trans h.symm)
    rw [htimed, hnote]
    exact Or.inl (by decide)

/-- **Occurrences of two kinds that do not conflict share no character.** -/
theorem conflicts_of_not_clearOf (ha : a.IsMatch line) (hb : b.IsMatch line)
    (hne : a.kind ≠ b.kind) (h : ¬ a.clearOf b = true) : a.kind.Conflicts b.kind := by
  rw [clearOf_iff, not_or, not_le, not_le] at h
  -- Both begin at one place, and then they are one, or the later begins inside the earlier.
  rcases lt_trichotomy a.offset b.offset with hlt | heq | hlt
  · exact conflicts_of_covers ha hb hne ⟨hlt, h.1⟩
  · exact absurd (congrArg (·.kind) (ha.eq_of_offset_eq hb heq)) hne
  · exact (conflicts_of_covers hb ha hne.symm ⟨hlt, h.2⟩).symm

end Occurrence

/-! ## Tables that agree -/

namespace Schedule

/-- Two tables name the same kinds, and of two kinds that conflict the same one first. -/
structure Agree (table table' : List Kind) : Prop where
  mem_iff : ∀ kind, kind ∈ table ↔ kind ∈ table'
  idxOf_lt_iff : ∀ a ∈ table, ∀ b ∈ table, a.Conflicts b →
    (table.idxOf a < table.idxOf b ↔ table'.idxOf a < table'.idxOf b)

variable {table table' : List Kind} {line : List Char} {o : Occurrence}

/-- Where tables agree, occurrences that meet come in the same order in both. -/
theorem Agree.clearOf_or_idxOf_lt_iff {a b : Occurrence} (h : Agree table table')
    (ha : a.IsMatch line) (hb : b.IsMatch line) (hat : a.kind ∈ table) (hbt : b.kind ∈ table) :
    b.clearOf a = true ∨
      (table.idxOf a.kind < table.idxOf b.kind ↔ table'.idxOf a.kind < table'.idxOf b.kind) := by
  by_cases hkind : a.kind = b.kind
  · rw [hkind]
    exact Or.inr (iff_of_false (Nat.lt_irrefl _) (Nat.lt_irrefl _))
  · by_cases hclear : a.clearOf b = true
    · exact Or.inl (by rwa [Occurrence.clearOf_comm])
    · exact Or.inr (h.idxOf_lt_iff _ hat _ hbt
        (Occurrence.conflicts_of_not_clearOf ha hb hkind hclear))

/-- **Tables that agree accept the same occurrences.** By induction on the place of the kind in one
of them: whether an occurrence is accepted asks only about those accepted for an earlier kind that
it meets, and these are of an earlier kind in both tables. -/
theorem Agree.mem_accepted_iff (h : Agree table table') :
    o ∈ accepted table line ↔ o ∈ accepted table' line := by
  induction hplace : table.idxOf o.kind using Nat.strong_induction_on generalizing o with
  | _ n ih =>
    have hearlier : ∀ a : Occurrence, table.idxOf a.kind < table.idxOf o.kind →
        (a ∈ accepted table line ↔ a ∈ accepted table' line) := fun a ha =>
      ih _ (hplace ▸ ha) rfl
    rw [Schedule.mem_accepted_iff, Schedule.mem_accepted_iff, ← h.mem_iff]
    refine and_congr_right fun hkind => and_congr_right fun hfound => ?_
    have hmatch := (mem_occurrences_iff.mp hfound).2.1
    constructor
    · intro hclear a ha hlt
      have hmem := (h.mem_iff _).mpr (Schedule.mem_accepted_iff.mp ha).1
      rcases h.clearOf_or_idxOf_lt_iff (isMatch_of_mem_accepted ha) hmatch hmem hkind with
        hfree | hsame
      · exact hfree
      · have hlt := hsame.mpr hlt
        exact hclear a ((hearlier a hlt).mpr ha) hlt
    · intro hclear a ha hlt
      have hmem := (Schedule.mem_accepted_iff.mp ha).1
      rcases h.clearOf_or_idxOf_lt_iff (isMatch_of_mem_accepted ha) hmatch hmem hkind with
        hfree | hsame
      · exact hfree
      · exact hclear a ((hearlier a hlt).mp ha) (hsame.mp hlt)

/-- The schedule asks only which occurrences are accepted. -/
theorem ofLine_congr (h : ∀ o, o ∈ accepted table line ↔ o ∈ accepted table' line) :
    ofLine table line = ofLine table' line := by
  obtain ⟨sorted, hperm, hsorted, hline⟩ := exists_sorted_accepted table' line
  rw [hline]
  exact ofLine_eq_of_mem_iff hsorted fun o => (h o).trans hperm.mem_iff.symm

/-- **Tables that agree make the same schedule of every line.** So it does not matter how kinds
stand that do not conflict, nor whether a kind is named again later on. -/
theorem ofLine_eq_of_agree (h : Agree table table') (line : List Char) :
    ofLine table line = ofLine table' line :=
  ofLine_congr fun _ => h.mem_accepted_iff

/-- The table with its marks of octaves last, the numbers turned round and three kinds named
again. -/
theorem ofLine_eq_of_agree_turned :
    Agree Kind.table
        [.timbre, .tempo, .length, .octave, .volumeDown, .tempo, .volumeUp, .volume, .timedNote,
          .note, .octaveDown, .octaveUp, .timbre, .volume] ∧
      ofLine Kind.table "@(V5)16B-<(7C>O2D".toList =
        ofLine [.timbre, .tempo, .length, .octave, .volumeDown, .tempo, .volumeUp, .volume,
          .timedNote, .note, .octaveDown, .octaveUp, .timbre, .volume]
          "@(V5)16B-<(7C>O2D".toList := by
  have hagree : Agree Kind.table
      [.timbre, .tempo, .length, .octave, .volumeDown, .tempo, .volumeUp, .volume, .timedNote,
        .note, .octaveDown, .octaveUp, .timbre, .volume] :=
    ⟨fun kind => by cases kind <;> decide, by decide⟩
  exact ⟨hagree, ofLine_eq_of_agree hagree _⟩

/-! ## Kinds that conflict do meet -/

/-- A line in which all kinds that conflict meet one another. -/
def crowdedLine : List Char := "@(1CV1CO1CL1CT1C)1C".toList

/-- **Two kinds conflict iff their order shows in some line.** -/
theorem conflicts_iff_exists_line {a b : Kind} (hne : a ≠ b) :
    a.Conflicts b ↔ ∃ line, ofLine [a, b] line ≠ ofLine [b, a] line := by
  constructor
  · intro h
    have hshows : ∃ o ∈ accepted [a, b] crowdedLine,
        o.toInstruction ∉ (accepted [b, a] crowdedLine).map (·.toInstruction) := by
      revert h hne
      cases a <;> cases b <;> decide +kernel
    obtain ⟨o, ho, hlost⟩ := hshows
    refine ⟨crowdedLine, fun heq => hlost ?_⟩
    have hmem := mem_ofLine_iff.mpr ⟨o, ho, rfl⟩
    rw [heq] at hmem
    exact List.mem_map.mpr (mem_ofLine_iff.mp hmem)
  · rintro ⟨line, hline⟩
    by_contra hconflict
    refine hline (ofLine_congr fun o => Agree.mem_accepted_iff ⟨fun kind => ?_, ?_⟩)
    · simp only [List.mem_cons, List.not_mem_nil, or_false]
      exact or_comm
    · intro c hc d hd hcd
      simp only [List.mem_cons, List.not_mem_nil, or_false] at hc hd
      rcases hc with rfl | rfl <;> rcases hd with rfl | rfl
      · exact iff_of_false (Nat.lt_irrefl _) (Nat.lt_irrefl _)
      · exact absurd hcd hconflict
      · exact absurd hcd.symm hconflict
      · exact iff_of_false (Nat.lt_irrefl _) (Nat.lt_irrefl _)

end Schedule
end Chiptune
