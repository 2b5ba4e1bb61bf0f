import Mathlib.Data.List.Pairwise
import Mathlib.Data.List.Sort
import Chiptune.Instruction.Schedule
import Chiptune.Proofs.Instruction.Shape

/-!
# Searching a line from the left

`Kind.occurrences` searches a line for one kind. A search for *several* kinds at once is the same
walk with another question at each place, so both are one function here, `Schedule.scan`, told by
a test which kinds are wanted:

* `Schedule.occurrences_eq_scan` — the search for one kind is the scan that wants that kind alone;
* `Schedule.mem_scan_iff` — an occurrence is found iff it is a match of a wanted kind and nothing
  else that was found covers the place where it begins.

The second is an equation for the set of found occurrences, not a recursion over the line: it is
what lets searches for different kinds be compared place by place.
-/

namespace Chiptune

/-! ## Occurrences in a line -/

namespace Occurrence

/-- The occurrence is a match of its kind where it says it stands. -/
def IsMatch (line : List Char) (o : Occurrence) : Prop :=
  o.kind.match? (line.drop o.offset) = some ⟨o.length, o.argument.toList⟩

/-- The place is inside the occurrence, behind its first character. -/
def Covers (o : Occurrence) (i : Nat) : Prop := o.offset < i ∧ i < o.stop

instance (o : Occurrence) (i : Nat) : Decidable (o.Covers i) :=
  inferInstanceAs (Decidable (o.offset < i ∧ i < o.stop))

theorem stop_eq (o : Occurrence) : o.stop = o.offset + o.length := rfl

theorem clearOf_iff {a b : Occurrence} :
    a.clearOf b = true ↔ a.stop ≤ b.offset ∨ b.stop ≤ a.offset := by
  simp [clearOf]

theorem clearOf_comm {a b : Occurrence} : a.clearOf b = b.clearOf a := by
  unfold clearOf
  rw [Bool.or_comm]

theorem IsMatch.length_pos {line : List Char} {o : Occurrence} (h : o.IsMatch line) :
    0 < o.length :=
  Kind.length_pos_of_match? h

/-- No occurrence is clear of itself. -/
theorem IsMatch.not_clearOf_self {line : List Char} {o : Occurrence} (h : o.IsMatch line) :
    o.clearOf o = false := by
  have := h.length_pos
  by_contra hc
  rcases clearOf_iff.mp (by simpa using hc) with hc | hc <;> rw [stop_eq] at hc <;> omega

/-- Two members of a list without overlaps are one, or share no character. -/
theorem clearOf_of_pairwise {found : List Occurrence}
    (h : found.Pairwise fun a b => a.clearOf b = true) {a b : Occurrence} (ha : a ∈ found)
    (hb : b ∈ found) (hne : a ≠ b) : a.clearOf b = true := by
  have : Std.Symm fun a b : Occurrence => a.clearOf b = true :=
    ⟨fun a b hab => by rw [clearOf_comm]; exact hab⟩
  exact h.forall ha hb hne

/-- Lists in the order of the line are equal where they have the same members. -/
theorem eq_of_mem_iff_of_sorted {xs ys : List Occurrence}
    (hxs : xs.Pairwise fun a b => a.stop ≤ b.offset)
    (hys : ys.Pairwise fun a b => a.stop ≤ b.offset) (hpos : ∀ o ∈ xs, 0 < o.length)
    (h : ∀ o, o ∈ xs ↔ o ∈ ys) : xs = ys := by
  have hirrefl : Std.Irrefl fun a b : Occurrence => a.offset < b.offset :=
    ⟨fun a => Nat.lt_irrefl a.offset⟩
  have hantisymm : Std.Antisymm fun a b : Occurrence => a.offset < b.offset :=
    ⟨fun a b hab hba => absurd hab (Nat.lt_asymm hba)⟩
  refine List.Pairwise.eq_of_mem_iff (r := fun a b : Occurrence => a.offset < b.offset) ?_ ?_ h
  · refine hxs.imp_of_mem fun {a b} ha _ hle => ?_
    have := hpos a ha
    rw [stop_eq] at hle
    omega
  · refine hys.imp_of_mem fun {a b} ha _ hle => ?_
    have := hpos a ((h a).mpr ha)
    rw [stop_eq] at hle
    omega

/-- The text of an occurrence, taken out of its line. -/
theorem IsMatch.shape {line : List Char} {o : Occurrence} (h : o.IsMatch line) :
    ∃ token rest, line.drop o.offset = token ++ rest ∧ o.kind.Shape token o.argument.toList ∧
      Ends token rest ∧ token.length = o.length :=
  Kind.match?_sound h

/-- Occurrences that begin at one place are one occurrence. -/
theorem IsMatch.eq_of_offset_eq {line : List Char} {a b : Occurrence} (ha : a.IsMatch line)
    (hb : b.IsMatch line) (hoffset : a.offset = b.offset) : a = b := by
  have hkind : a.kind = b.kind := by
    obtain ⟨_, rest, htext, hshape, -, -⟩ := ha.shape
    obtain ⟨_, rest', htext', hshape', -, -⟩ := hb.shape
    obtain ⟨c, inner, rfl, hc⟩ := hshape.head
    obtain ⟨c', inner', rfl, hc'⟩ := hshape'.head
    rw [hoffset, htext', List.cons_append, List.cons_append] at htext
    obtain ⟨rfl, -⟩ := List.cons.inj htext
    exact Option.some.inj (hc.symm.trans hc')
  unfold IsMatch at ha hb
  rw [hoffset, hkind, hb] at ha
  obtain ⟨⟨offset, kind, argument⟩, length⟩ := a
  obtain ⟨⟨offset', kind', argument'⟩, length'⟩ := b
  simp only [Option.some.injEq, Match.mk.injEq] at ha hoffset hkind
  obtain ⟨rfl, harg⟩ := ha
  rw [hoffset, hkind, String.toList_inj.mp harg]

end Occurrence

/-! ## The scan -/

/-- What begins at the head of a text, if its kind is wanted. -/
def Kind.firstMatch? (wanted : Kind → Bool) : List Char → Option (Kind × Match)
  | [] => none
  | c :: rest =>
    ((Kind.ofHead? c).filter wanted).bind fun kind =>
      (kind.match? (c :: rest)).map fun m => (kind, m)

/-- `firstMatch?` asks only the kind that the first character names, and loses nothing by it. -/
theorem Kind.firstMatch?_eq_some_iff {wanted : Kind → Bool} {text : List Char} {kind : Kind}
    {m : Match} :
    Kind.firstMatch? wanted text = some (kind, m) ↔
      wanted kind = true ∧ kind.match? text = some m := by
  cases text with
  | nil =>
    simp [Kind.firstMatch?, Kind.match?_nil]
  | cons c rest =>
    simp only [Kind.firstMatch?, Option.bind_eq_some_iff, Option.filter_eq_some_iff,
      Option.map_eq_some_iff, Prod.mk.injEq]
    constructor
    · rintro ⟨k, ⟨-, hwanted⟩, m', hm, rfl, rfl⟩
      exact ⟨hwanted, hm⟩
    · rintro ⟨hwanted, hm⟩
      refine ⟨kind, ⟨?_, hwanted⟩, m, hm, rfl, rfl⟩
      obtain ⟨token, rest', htext, hshape, -, -⟩ := Kind.match?_sound hm
      obtain ⟨d, inner, rfl, hd⟩ := hshape.head
      obtain ⟨rfl, -⟩ := List.cons.inj htext
      exact hd

namespace Schedule

/-- Every match of a wanted kind in a text, from the left, none overlapping the one before. As in
`Kind.occurrencesFrom`, the first `skip` characters belong to a match already found. -/
def scanFrom (wanted : Kind → Bool) (offset : Nat) : Nat → List Char → List Occurrence
  | _, [] => []
  | skip + 1, _ :: rest => scanFrom wanted (offset + 1) skip rest
  | 0, c :: rest =>
    match Kind.firstMatch? wanted (c :: rest) with
    | none => scanFrom wanted (offset + 1) 0 rest
    | some (kind, m) =>
      { offset, kind, argument := String.ofList m.argument, length := m.length } ::
        scanFrom wanted (offset + 1) (m.length - 1) rest

/-- Every match of a wanted kind in a line, from the left. -/
def scan (wanted : Kind → Bool) (line : List Char) : List Occurrence := scanFrom wanted 0 0 line

theorem firstMatch?_single (kind : Kind) (text : List Char) :
    Kind.firstMatch? (· == kind) text = (kind.match? text).map fun m => (kind, m) := by
  ext ⟨k, m⟩
  rw [Kind.firstMatch?_eq_some_iff, Option.map_eq_some_iff]
  constructor
  · rintro ⟨hk, hm⟩
    have : k = kind := by simpa using hk
    subst this
    exact ⟨m, hm, rfl⟩
  · rintro ⟨m', hm, heq⟩
    cases heq
    exact ⟨by simp, hm⟩

theorem occurrencesFrom_eq_scanFrom (kind : Kind) (text : List Char) :
    ∀ offset skip, kind.occurrencesFrom offset skip text = scanFrom (· == kind) offset skip text := by
  induction text with
  | nil => intro offset skip; cases skip <;> rfl
  | cons c rest ih =>
    intro offset skip
    cases skip with
    | succ skip => exact ih (offset + 1) skip
    | zero =>
      simp only [Kind.occurrencesFrom, scanFrom, firstMatch?_single]
      cases kind.match? (c :: rest) with
      | none => exact ih (offset + 1) 0
      | some m => exact congrArg _ (ih (offset + 1) (m.length - 1))

/-- The search for one kind is the scan that wants that kind alone. -/
theorem occurrences_eq_scan (kind : Kind) (line : List Char) :
    kind.occurrences line = scan (· == kind) line :=
  occurrencesFrom_eq_scanFrom kind line 0 0

/-! ## What a scan finds

The statements are by induction on the text and for every offset and skip, since those are what the
recursion changes. Each has the three cases of the walk: a character of a match already found, one
where nothing begins, and one where something does. -/

theorem drop_cons_sub {α : Type} {offset n : Nat} (c : α) (rest : List α) (h : offset + 1 ≤ n) :
    (c :: rest).drop (n - offset) = rest.drop (n - (offset + 1)) := by
  rw [show n - offset = (n - (offset + 1)) + 1 by omega, List.drop_succ_cons]

theorem scanFrom_of_firstMatch? {wanted : Kind → Bool} {offset : Nat} {c : Char} {rest : List Char}
    {kind : Kind} {m : Match} (h : Kind.firstMatch? wanted (c :: rest) = some (kind, m)) :
    scanFrom wanted offset 0 (c :: rest) =
      ⟨⟨offset, kind, String.ofList m.argument⟩, m.length⟩ ::
        scanFrom wanted (offset + 1) (m.length - 1) rest := by
  simp only [scanFrom, h]

/-- What the walk finds is a match of a wanted kind, and not in front of where it stands. -/
theorem of_mem_scanFrom (wanted : Kind → Bool) (text : List Char) :
    ∀ (offset skip : Nat) (o : Occurrence), o ∈ scanFrom wanted offset skip text →
      offset + skip ≤ o.offset ∧ wanted o.kind = true ∧
        o.kind.match? (text.drop (o.offset - offset)) = some ⟨o.length, o.argument.toList⟩ := by
  induction text with
  | nil =>
    intro offset skip o h
    simp [scanFrom] at h
  | cons c rest ih =>
    have hlater : ∀ offset skip o, o ∈ scanFrom wanted (offset + 1) skip rest →
        offset + 1 + skip ≤ o.offset ∧ wanted o.kind = true ∧
          o.kind.match? ((c :: rest).drop (o.offset - offset)) =
            some ⟨o.length, o.argument.toList⟩ := by
      intro offset skip o h
      obtain ⟨hle, hwanted, hmatch⟩ := ih (offset + 1) skip o h
      exact ⟨hle, hwanted, by rw [drop_cons_sub c rest (by omega)]; exact hmatch⟩
    intro offset skip o h
    cases skip with
    | succ skip =>
      obtain ⟨hle, hwhat⟩ := hlater offset skip o h
      exact ⟨by omega, hwhat⟩
    | zero =>
      cases hfirst : Kind.firstMatch? wanted (c :: rest) with
      | none =>
        simp only [scanFrom, hfirst] at h
        obtain ⟨hle, hwhat⟩ := hlater offset 0 o h
        exact ⟨by omega, hwhat⟩
      | some found =>
        rw [scanFrom_of_firstMatch? hfirst] at h
        obtain ⟨hkind, hm⟩ := Kind.firstMatch?_eq_some_iff.mp hfirst
        rcases List.mem_cons.mp h with rfl | h
        · exact ⟨Nat.le_refl _, hkind, by simpa using hm⟩
        · obtain ⟨hle, hwhat⟩ := hlater offset _ o h
          exact ⟨by omega, hwhat⟩

theorem pairwise_scanFrom (wanted : Kind → Bool) (text : List Char) :
    ∀ offset skip, (scanFrom wanted offset skip text).Pairwise fun a b => a.stop ≤ b.offset := by
  induction text with
  | nil => intro offset skip; simp [scanFrom]
  | cons c rest ih =>
    intro offset skip
    cases skip with
    | succ skip => exact ih (offset + 1) skip
    | zero =>
      simp only [scanFrom]
      split
      · exact ih (offset + 1) 0
      · rename_i kind m hm
        refine List.pairwise_cons.mpr ⟨fun b hb => ?_, ih _ _⟩
        have hle := (of_mem_scanFrom wanted rest _ _ b hb).1
        have hpos := Kind.length_pos_of_match? (Kind.firstMatch?_eq_some_iff.mp hm).2
        show offset + m.length ≤ b.offset
        omega

/-- A match that the walk has not passed is found, or something that is found covers its start. -/
theorem mem_scanFrom_or_covered (wanted : Kind → Bool) (text : List Char) :
    ∀ (offset skip : Nat) (o : Occurrence), offset + skip ≤ o.offset → wanted o.kind = true →
      o.kind.match? (text.drop (o.offset - offset)) = some ⟨o.length, o.argument.toList⟩ →
        o ∈ scanFrom wanted offset skip text ∨
          ∃ a ∈ scanFrom wanted offset skip text, a.Covers o.offset := by
  induction text with
  | nil =>
    intro offset skip o _ _ hmatch
    simp [Kind.match?_nil] at hmatch
  | cons c rest ih =>
    intro offset skip o hle hwanted hmatch
    cases skip with
    | succ skip =>
      refine ih (offset + 1) skip o (by omega) hwanted ?_
      rw [← drop_cons_sub c rest (by omega)]
      exact hmatch
    | zero =>
      by_cases heq : o.offset = offset
      · -- It begins here, and only one kind matches here.
        rw [heq, Nat.sub_self, List.drop_zero] at hmatch
        rw [scanFrom_of_firstMatch? (Kind.firstMatch?_eq_some_iff.mpr ⟨hwanted, hmatch⟩)]
        refine Or.inl (List.mem_cons.mpr (Or.inl ?_))
        obtain ⟨⟨offset', kind', argument'⟩, length'⟩ := o
        simp only at heq
        subst heq
        simp
      · have hrest : o.kind.match? (rest.drop (o.offset - (offset + 1))) =
            some ⟨o.length, o.argument.toList⟩ := by
          rw [← drop_cons_sub c rest (by omega)]
          exact hmatch
        cases hfirst : Kind.firstMatch? wanted (c :: rest) with
        | none =>
          simp only [scanFrom, hfirst]
          exact ih (offset + 1) 0 o (by omega) hwanted hrest
        | some found =>
          rw [scanFrom_of_firstMatch? hfirst]
          -- Either it begins inside what is found here, or the walk has yet to come to it.
          by_cases hinside : o.offset < offset + found.2.length
          · refine Or.inr ⟨_, List.mem_cons_self, ?_, hinside⟩
            show offset < o.offset
            omega
          · rcases ih (offset + 1) (found.2.length - 1) o (by omega) hwanted hrest with h | h
            · exact Or.inl (List.mem_cons_of_mem _ h)
            · obtain ⟨a, ha, hcover⟩ := h
              exact Or.inr ⟨a, List.mem_cons_of_mem _ ha, hcover⟩

variable {wanted : Kind → Bool} {line : List Char} {o : Occurrence}

theorem pairwise_scan (wanted : Kind → Bool) (line : List Char) :
    (scan wanted line).Pairwise fun a b => a.stop ≤ b.offset :=
  pairwise_scanFrom wanted line 0 0

/-- Two found occurrences are one, or share no character. -/
theorem clearOf_of_mem_scan {a b : Occurrence} (ha : a ∈ scan wanted line)
    (hb : b ∈ scan wanted line) (hne : a ≠ b) : a.clearOf b = true :=
  Occurrence.clearOf_of_pairwise
    ((pairwise_scan wanted line).imp fun h => Occurrence.clearOf_iff.mpr (Or.inl h)) ha hb hne

/-- A match of a wanted kind that the scan has not found begins inside one that it has. -/
theorem covered_of_not_mem_scan (hwanted : wanted o.kind = true) (hmatch : o.IsMatch line)
    (h : o ∉ scan wanted line) : ∃ a ∈ scan wanted line, a.Covers o.offset :=
  (mem_scanFrom_or_covered wanted line 0 0 o (Nat.zero_le _) hwanted hmatch).resolve_left h

/-- **What a scan finds**: the matches of wanted kinds that begin where nothing else that it found
still goes on. -/
theorem mem_scan_iff :
    o ∈ scan wanted line ↔
      wanted o.kind = true ∧ o.IsMatch line ∧ ∀ a ∈ scan wanted line, ¬ a.Covers o.offset := by
  constructor
  · intro h
    obtain ⟨-, hwanted, hmatch⟩ := of_mem_scanFrom wanted line 0 0 o h
    refine ⟨hwanted, hmatch, fun a ha ⟨hlt, hstop⟩ => ?_⟩
    have hne : a ≠ o := fun heq => absurd hlt (by rw [heq]; exact Nat.lt_irrefl _)
    have := (o.stop_eq).ge
    rcases Occurrence.clearOf_iff.mp (clearOf_of_mem_scan ha h hne) with hle | hle <;> omega
  · rintro ⟨hwanted, hmatch, hfree⟩
    by_contra h
    obtain ⟨a, ha, hcover⟩ := covered_of_not_mem_scan hwanted hmatch h
    exact hfree a ha hcover

theorem isMatch_of_mem_scan (h : o ∈ scan wanted line) : o.IsMatch line := (mem_scan_iff.mp h).2.1

end Schedule

/-! ## Where occurrences overlap

The facts about tokens, carried to places of a line. `rank_lt_of_covers` is the first half of why a
table may claim text in the order it does; `covers_of_covers_timedNote` is what saves the one
exception. A timed note may begin inside another one, but only in its run of digits, and whatever
reaches into a run of digits from the left takes all of it. -/

namespace Occurrence

variable {text : List Char} {a b t : Occurrence}

theorem getElem?_token {token rest : List Char} {start i : Nat}
    (htext : text.drop start = token ++ rest) (hi : i < token.length) :
    text[start + i]? = token[i]? := by
  rw [← List.getElem?_drop, htext, List.getElem?_append_left hi]

theorem IsMatch.head_at (h : a.IsMatch text) :
    ∃ c, text[a.offset]? = some c ∧ Kind.ofHead? c = some a.kind := by
  obtain ⟨token, rest, htext, hshape, -, -⟩ := h.shape
  obtain ⟨c, inner, rfl, hc⟩ := hshape.head
  exact ⟨c, getElem?_token (i := 0) htext (by simp), hc⟩

/-- An occurrence that begins inside another begins with a character of its token, one behind the
first. -/
theorem exists_inner_of_covers (ha : a.IsMatch text) (hb : b.IsMatch text)
    (h : a.Covers b.offset) :
    ∃ c inner d, a.kind.Shape (c :: inner) a.argument.toList ∧ d ∈ inner ∧
      Kind.ofHead? d = some b.kind := by
  obtain ⟨token, rest, htext, hshape, -, hlength⟩ := ha.shape
  obtain ⟨c, inner, rfl, -⟩ := hshape.head
  obtain ⟨d, hd, hkind⟩ := hb.head_at
  obtain ⟨hlt, hstop⟩ := h
  rw [stop_eq] at hstop
  obtain ⟨j, hj⟩ : ∃ j, b.offset = a.offset + (j + 1) := ⟨b.offset - a.offset - 1, by omega⟩
  rw [hj, getElem?_token htext (by omega), List.getElem?_cons_succ] at hd
  exact ⟨c, inner, d, hshape, List.mem_of_getElem? hd, hkind⟩

/-- Where an occurrence begins inside another, the kinds allow it. -/
theorem admits_of_covers (ha : a.IsMatch text) (hb : b.IsMatch text) (h : a.Covers b.offset) :
    a.kind.Admits b.kind := by
  obtain ⟨c, inner, d, hshape, hd, hkind⟩ := exists_inner_of_covers ha hb h
  exact hshape.admits hd hkind

/-- **Inside an occurrence nothing begins that claims the text earlier**, and only a timed note
begins inside one of its own kind. -/
theorem rank_lt_of_covers (ha : a.IsMatch text) (hb : b.IsMatch text) (h : a.Covers b.offset) :
    a.kind.rank < b.kind.rank ∨ a.kind = .timedNote ∧ b.kind = .timedNote :=
  (admits_of_covers ha hb h).rank_lt

/-- From the start of a timed note to the start of one inside it there are only digits. -/
theorem isDigit_between (ha : a.IsMatch text) (hb : b.IsMatch text) (hak : a.kind = .timedNote)
    (hbk : b.kind = .timedNote) (h : a.Covers b.offset) {i : Nat} (hai : a.offset ≤ i)
    (hib : i ≤ b.offset) : ∃ c, text[i]? = some c ∧ Text.isDigit c = true := by
  obtain ⟨token, rest, htext, hshape, -, hlength⟩ := ha.shape
  obtain ⟨hlt, hstop⟩ := h
  rw [stop_eq] at hstop
  rw [hak] at hshape
  obtain ⟨d, hd, hkind⟩ := hb.head_at
  have hdigit : Text.isDigit d = true := by
    rw [hbk] at hkind
    exact Kind.isDigit_of_ofHead?_timedNote hkind
  obtain ⟨j, rfl⟩ : ∃ j, i = a.offset + j := ⟨i - a.offset, by omega⟩
  obtain ⟨k, hk⟩ : ∃ k, b.offset = a.offset + k := ⟨b.offset - a.offset, by omega⟩
  rw [hk, getElem?_token htext (by omega)] at hd
  rw [getElem?_token htext (by omega)]
  generalize a.argument.toList = argument at hshape
  cases hshape with
  | number hmark _ _ => simp [Kind.numberMarks] at hmark
  | @timedNote digits note _ hdigits hnote =>
    have hinside : k < digits.length := by
      by_contra hge
      rw [List.getElem?_append_right (by omega)] at hd
      have := hnote.not_isDigit d (List.mem_of_getElem? hd)
      rw [hdigit] at this
      exact absurd this (by simp)
    have hj : j < digits.length := by omega
    refine ⟨digits[j], ?_, hdigits _ (List.getElem_mem hj)⟩
    rw [List.getElem?_append_left hj, List.getElem?_eq_getElem hj]

/-- **What reaches into the digits of a timed note takes all of them.** -/
theorem covers_of_covers_timedNote (ha : a.IsMatch text) (hb : b.IsMatch text)
    (ht : t.IsMatch text) (hak : a.kind = .timedNote) (hbk : b.kind = .timedNote)
    (hab : a.Covers b.offset) (hta : t.Covers a.offset) : t.Covers b.offset := by
  refine ⟨Nat.lt_trans hta.1 hab.1, ?_⟩
  by_contra hle
  obtain ⟨token, rest, htext, hshape, hends, hlength⟩ := ht.shape
  have hstop : t.stop = t.offset + token.length := by rw [hlength]; rfl
  have hlt : a.offset < t.stop := hta.2
  -- The last character of `t` and the one behind it both lie between the two timed notes.
  have hpos : 0 < token.length := List.length_pos_iff.mpr hshape.ne_nil
  obtain ⟨c, hc, hcdigit⟩ := isDigit_between ha hb hak hbk hab
    (i := t.offset + (token.length - 1)) (by omega) (by omega)
  obtain ⟨d, hd, hddigit⟩ := isDigit_between ha hb hak hbk hab
    (i := t.offset + token.length) (by omega) (by omega)
  rw [getElem?_token htext (by omega)] at hc
  have hlast : token.getLast? = some c := by rw [List.getLast?_eq_getElem?, hc]
  have hhead : rest.head? = some d := by
    rw [← List.getElem?_drop, htext, List.getElem?_append_right (Nat.le_refl _), Nat.sub_self] at hd
    rw [List.head?_eq_getElem?, hd]
  have := hends.stopsAt_digit hlast hcdigit d hhead
  rw [hddigit] at this
  exact absurd this (by simp)

end Occurrence

end Chiptune
