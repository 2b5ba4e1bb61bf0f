import Mathlib.Data.List.Induction
import Chiptune.Proofs.Instruction.Scan

/-!
# The marks of a search

While a line is searched, the program keeps two things: the occurrences it has accepted, and a mark
on every character that one of them has taken. Only the marks are asked when the next occurrence is
found, also when it is found for the same kind. Here the marks are given up in favour of the
occurrences. A character is marked iff it is part of something accepted (`Claims.Marked`), so an
occurrence meets a mark iff it shares a character with something accepted (`Marked.meets_iff`).

The turn of a kind is then a filter over what its search finds (`Schedule.accepted_concat`). The
marks that are set during the turn do not show in it: two things that one search finds have no
character in common, so nothing that a kind has marked itself is in its own way.
-/

namespace Chiptune

/-! ## Sharing a character -/

namespace Occurrence

/-- The character at a place is part of the occurrence. -/
def Has (o : Occurrence) (i : Nat) : Prop := o.offset ≤ i ∧ i < o.stop

instance (o : Occurrence) (i : Nat) : Decidable (o.Has i) :=
  inferInstanceAs (Decidable (o.offset ≤ i ∧ i < o.stop))

/-- Two occurrences share a character of their line. -/
def Shares (a b : Occurrence) : Prop := ∃ i, a.Has i ∧ b.Has i

theorem clearOf_iff_not_shares {a b : Occurrence} (ha : 0 < a.length) (hb : 0 < b.length) :
    a.clearOf b = true ↔ ¬ a.Shares b := by
  rw [clearOf_iff]
  constructor
  · rintro hclear ⟨i, ⟨hai, hia⟩, hbi, hib⟩
    omega
  · intro hshare
    by_contra hclear
    have hstart := stop_eq a
    have hstop := stop_eq b
    -- Whichever begins last begins inside the other.
    exact hshare ⟨max a.offset b.offset, ⟨by omega, by omega⟩, by omega, by omega⟩

/-- An occurrence ends in its line. -/
theorem IsMatch.stop_le {line : List Char} {o : Occurrence} (h : o.IsMatch line) :
    o.stop ≤ line.length := by
  obtain ⟨token, rest, htext, hshape, -, hlength⟩ := h.shape
  have hpos : 0 < token.length := List.length_pos_iff.mpr hshape.ne_nil
  have hdrop := congrArg List.length htext
  rw [List.length_drop, List.length_append] at hdrop
  rw [stop_eq, ← hlength]
  omega

end Occurrence

/-! ## What one search finds -/

namespace Schedule

theorem pairwise_occurrences (kind : Kind) (line : List Char) :
    (kind.occurrences line).Pairwise fun a b => a.clearOf b = true := by
  rw [occurrences_eq_scan]
  exact (pairwise_scan _ line).imp fun h => Occurrence.clearOf_iff.mpr (Or.inl h)

theorem isMatch_of_mem_occurrences {line : List Char} {kind : Kind} {o : Occurrence}
    (h : o ∈ kind.occurrences line) : o.IsMatch line := by
  rw [occurrences_eq_scan] at h
  exact isMatch_of_mem_scan h

end Schedule

/-! ## What a mark means -/

namespace Claims

variable {line : List Char} {claims : Claims} {o : Occurrence}

/-- A character is marked iff something accepted has it. -/
structure Marked (line : List Char) (claims : Claims) : Prop where
  size_eq : claims.taken.size = line.length
  isMatch : ∀ a ∈ claims.found, a.IsMatch line
  taken_iff : ∀ i, claims.taken[i]? = some true ↔ ∃ a ∈ claims.found, a.Has i

theorem marked_start (line : List Char) : Marked line (start line) := by
  refine ⟨Array.size_replicate, fun a ha => absurd ha (Array.not_mem_empty a), fun i => ?_⟩
  constructor
  · intro h
    rw [start, Array.getElem?_replicate] at h
    split at h <;> cases h
  · rintro ⟨a, ha, -⟩
    exact absurd ha (Array.not_mem_empty a)

theorem meets_iff_exists_taken :
    claims.meets o = true ↔ ∃ i, o.Has i ∧ claims.taken[i]? = some true := by
  unfold meets
  rw [Array.any_eq_true']
  simp only [id_eq, exists_eq_right, Array.mem_iff_getElem?, Array.getElem?_extract]
  constructor
  · rintro ⟨i, hi⟩
    split at hi
    · exact ⟨o.offset + i, ⟨Nat.le_add_right .., by omega⟩, hi⟩
    · cases hi
  · rintro ⟨i, ⟨hstart, hstop⟩, hi⟩
    have hlt : i < claims.taken.size := (Array.getElem?_eq_some_iff.mp hi).1
    refine ⟨i - o.offset, ?_⟩
    rw [if_pos (by omega), Nat.add_sub_cancel' hstart, hi]

/-- The marks stand in the way of exactly what shares a character with something accepted. -/
theorem Marked.meets_iff (h : Marked line claims) :
    claims.meets o = true ↔ ∃ a ∈ claims.found, a.Shares o := by
  rw [meets_iff_exists_taken]
  constructor
  · rintro ⟨i, hi, htaken⟩
    obtain ⟨a, ha, hai⟩ := (h.taken_iff i).mp htaken
    exact ⟨a, ha, i, hai, hi⟩
  · rintro ⟨a, ha, i, hai, hi⟩
    exact ⟨i, hi, (h.taken_iff i).mpr ⟨a, ha, hai⟩⟩

theorem Marked.all_clearOf (h : Marked line claims) (ho : o.IsMatch line) :
    claims.found.toList.all o.clearOf = !claims.meets o := by
  rw [Bool.eq_iff_iff, List.all_eq_true, Bool.not_eq_true', ← Bool.not_eq_true, h.meets_iff]
  simp only [Array.mem_toList_iff, not_exists, not_and]
  refine forall₂_congr fun a ha => ?_
  rw [Occurrence.clearOf_comm,
    Occurrence.clearOf_iff_not_shares (h.isMatch a ha).length_pos ho.length_pos]

/-! ## One occurrence -/

theorem accept_of_meets (h : claims.meets o = true) : claims.accept o = claims := by
  rw [accept, if_pos h]

theorem found_accept (h : claims.meets o = false) :
    (claims.accept o).found = claims.found.push o := by
  rw [accept, h]
  rfl

theorem size_taken_accept (h : claims.meets o = false) :
    (claims.accept o).taken.size = claims.taken.size := by
  rw [accept, h]
  exact size_changeStretch ..

theorem getElem?_taken_accept (h : claims.meets o = false) (i : Nat) :
    (claims.accept o).taken[i]? =
      if o.Has i then claims.taken[i]?.map fun _ => true else claims.taken[i]? := by
  rw [accept, h]
  exact getElem?_changeStretch claims.taken o.offset o.length (fun _ _ => true) i

/-- **Accepting an occurrence marks its characters and no others.** -/
theorem Marked.accept (h : Marked line claims) (ho : o.IsMatch line) :
    Marked line (claims.accept o) := by
  cases hmeets : claims.meets o with
  | true => rwa [accept_of_meets hmeets]
  | false =>
    refine ⟨?_, fun a ha => ?_, fun i => ?_⟩
    · rw [size_taken_accept hmeets, h.size_eq]
    · rw [found_accept hmeets, Array.mem_push] at ha
      rcases ha with ha | rfl
      · exact h.isMatch a ha
      · exact ho
    · rw [getElem?_taken_accept hmeets, found_accept hmeets]
      by_cases hi : o.Has i
      · have hlt : i < claims.taken.size := by
          rw [h.size_eq]
          exact Nat.lt_of_lt_of_le hi.2 ho.stop_le
        rw [if_pos hi, Array.getElem?_eq_getElem hlt]
        exact iff_of_true rfl ⟨o, Array.mem_push_self, hi⟩
      · rw [if_neg hi, h.taken_iff]
        constructor
        · rintro ⟨a, ha, hai⟩
          exact ⟨a, Array.mem_push_of_mem o ha, hai⟩
        · rintro ⟨a, ha, hai⟩
          rcases Array.mem_push.mp ha with ha | rfl
          · exact ⟨a, ha, hai⟩
          · exact absurd hai hi

/-! ## The turn of a kind -/

/-- **Occurrences without a common character are tested against what was there before them.** By
induction on the occurrences: what the first of them marks is clear of all the others. -/
theorem Marked.foldl_accept {later : List Occurrence} :
    ∀ {claims : Claims}, Marked line claims → (∀ o ∈ later, o.IsMatch line) →
      later.Pairwise (fun a b => a.clearOf b = true) →
        Marked line (later.foldl Claims.accept claims) ∧
          (later.foldl Claims.accept claims).found.toList =
            claims.found.toList ++ later.filter fun o => claims.found.toList.all o.clearOf := by
  induction later with
  | nil => exact fun h _ _ => ⟨h, by simp⟩
  | cons o later ih =>
    intro claims h hmatch hclear
    obtain ⟨ho, hmatch⟩ := List.forall_mem_cons.mp hmatch
    obtain ⟨hfirst, hclear⟩ := List.pairwise_cons.mp hclear
    obtain ⟨hmarked, hfound⟩ := ih (h.accept ho) hmatch hclear
    refine ⟨hmarked, ?_⟩
    rw [List.foldl_cons, hfound, List.filter_cons, h.all_clearOf ho]
    cases hmeets : claims.meets o with
    | true =>
      rw [accept_of_meets hmeets]
      rfl
    | false =>
      rw [found_accept hmeets, Array.toList_push, List.append_assoc,
        List.singleton_append]
      refine congrArg _ (congrArg _ (List.filter_congr fun a ha => ?_))
      simp [Occurrence.clearOf_comm (a := a), hfirst a ha]

theorem Marked.search (h : Marked line claims) (kind : Kind) :
    Marked line (search line claims kind) :=
  (h.foldl_accept (fun _ => Schedule.isMatch_of_mem_occurrences)
    (Schedule.pairwise_occurrences kind line)).1

theorem ofTable_concat (before : List Kind) (kind : Kind) (line : List Char) :
    ofTable (before ++ [kind]) line = search line (ofTable before line) kind :=
  List.foldl_concat ..

/-- **The marks of a whole search.** -/
theorem marked_ofTable (table : List Kind) (line : List Char) :
    Marked line (ofTable table line) := by
  induction table using List.reverseRecOn with
  | nil => exact marked_start line
  | append_singleton before kind ih =>
    rw [ofTable_concat]
    exact ih.search kind

end Claims

/-! ## What the loop accepts -/

namespace Schedule

theorem accepted_nil (line : List Char) : accepted [] line = [] := rfl

/-- **The turn of a kind is a filter.** Accepted is what its search finds clear of all that was
accepted when its turn came. -/
theorem accepted_concat (before : List Kind) (kind : Kind) (line : List Char) :
    accepted (before ++ [kind]) line =
      accepted before line ++
        (kind.occurrences line).filter fun o => (accepted before line).all o.clearOf := by
  unfold accepted
  rw [Claims.ofTable_concat]
  exact ((Claims.marked_ofTable before line).foldl_accept
    (fun _ => isMatch_of_mem_occurrences) (pairwise_occurrences kind line)).2

/-- **The marks of the search are the characters of what is accepted.** -/
theorem taken_iff (table : List Kind) (line : List Char) (i : Nat) :
    (Claims.ofTable table line).taken[i]? = some true ↔ ∃ a ∈ accepted table line, a.Has i := by
  simp only [(Claims.marked_ofTable table line).taken_iff, accepted, Array.mem_toList_iff]

end Schedule
end Chiptune
