import Chiptune.Proofs.Binary64.Sign
import Chiptune.Rendering.Sound

/-!
# The windows of notes

The notes of a channel are played back to back, so each has a window of its own: it starts where
the counts of the notes before it add up to, and is as long as its own count. This file defines the
windows from the notes alone (`InWindow`), with no buffer that is filled on the way, and proves the
two facts that a rendering goes by: the window of the first note begins at the start of the buffer,
and the others are the windows of the later notes, put off by the count of the first.

The second fact needs that no count is negative, else a note could reach back into one before it.
`noteCount_nonneg` proves this of the floats in which counts are computed.
-/

namespace Chiptune
namespace Rendering

/-! ## Counts and starts -/

/-- How many samples a note takes. -/
def noteCount (tempo rate : Number) (note : Note) : Except Error Int := do
  noteSamples (.real (← note.seconds tempo)) rate

/-- The sample at which a note starts that stands behind some others: the sum of their counts. -/
def start (tempo rate : Number) : List Note → Except Error Int
  | [] => .ok 0
  | note :: rest => do return (← noteCount tempo rate note) + (← start tempo rate rest)

/-- The place is in the window of the `k`-th note, so many samples behind its start. -/
structure InWindow (tempo rate : Number) (notes : List Note) (k : Nat) (note : Note)
    (place distance : Nat) : Prop where
  note_eq : notes[k]? = some note
  starts : ∃ first, start tempo rate (notes.take k) = .ok first ∧ (place : Int) = first + distance
  lasts : ∃ count, noteCount tempo rate note = .ok count ∧ (distance : Int) < count

variable {tempo rate : Number}

theorem isNegative_toFloat {n : Number} {x : Float} (hn : n.isNotPositive = false)
    (h : n.toFloat = .ok x) : Binary64.isNegative x = false := by
  unfold Number.isNotPositive Number.isNegative Number.isZero at hn
  unfold Number.toFloat at h
  split at h
  · rename_i k hk
    rw [hk] at hn
    refine Binary64.isNegative_ofInt ?_ h
    have : decide (k < 0) = false := (Bool.or_eq_false_iff.mp hn).1
    simpa using this
  · rename_i y hy
    rw [hy] at hn
    cases h
    obtain ⟨hlt, hzero⟩ := Bool.or_eq_false_iff.mp hn
    exact Binary64.isNegative_of_positive (by simpa using hlt) hzero

/-- A product with a float on the left is one of floats. -/
theorem real_mul (x : Float) (n : Number) :
    (Number.real x).mul n = n.toFloat >>= fun y => .ok (.real (x * y)) := by
  have hleft : (Number.real x).measure = .approximate x := rfl
  unfold Number.mul Number.toFloat
  rw [hleft]
  cases n.measure <;> rfl

/-- The playing time of a note has no sign. -/
theorem isNegative_seconds {note : Note} {x : Float} (htempo : tempo.isNotPositive = false)
    (h : note.seconds tempo = .ok x) : Binary64.isNegative x = false := by
  unfold Note.seconds at h
  obtain ⟨duration, hduration, h⟩ := bind_eq_ok_iff.mp h
  obtain ⟨beats, hbeats, h⟩ := bind_eq_ok_iff.mp h
  obtain ⟨pulse, hpulse, h⟩ := bind_eq_ok_iff.mp h
  obtain ⟨beat, hbeat, h⟩ := bind_eq_ok_iff.mp h
  cases h
  exact Binary64.isNegative_mul
    (Binary64.isNegative_divide rfl
      (Binary64.isNegative_ofInt (Int.natCast_nonneg _) hduration) hbeats)
    (Binary64.isNegative_divide rfl (isNegative_toFloat htempo hpulse) hbeat)

/-- **No note takes less than no time.** -/
theorem noteCount_nonneg {note : Note} {count : Int} (htempo : tempo.isNotPositive = false)
    (hrate : rate.isNotPositive = false) (h : noteCount tempo rate note = .ok count) :
    0 ≤ count := by
  obtain ⟨seconds, hseconds, h⟩ := bind_eq_ok_iff.mp h
  have htime := isNegative_seconds htempo hseconds
  obtain ⟨product, hproduct, h⟩ := bind_eq_ok_iff.mp h
  rw [real_mul] at hproduct
  obtain ⟨x, hx, hproduct⟩ := bind_eq_ok_iff.mp hproduct
  cases hproduct
  exact Binary64.toInt_round_nonneg (Binary64.isNegative_mul htime (isNegative_toFloat hrate hx)) h

theorem start_cons {note : Note} {rest : List Note} {first : Int} :
    start tempo rate (note :: rest) = .ok first ↔
      ∃ count later, noteCount tempo rate note = .ok count ∧ start tempo rate rest = .ok later ∧
        first = count + later := by
  simp only [start, bind_eq_ok_iff, pure, Except.pure, Except.ok.injEq]
  constructor
  · rintro ⟨count, hcount, later, hlater, rfl⟩
    exact ⟨count, later, hcount, hlater, rfl⟩
  · rintro ⟨count, later, hcount, hlater, rfl⟩
    exact ⟨count, hcount, later, hlater, rfl⟩

theorem start_nonneg {notes : List Note} {first : Int} (htempo : tempo.isNotPositive = false)
    (hrate : rate.isNotPositive = false) (h : start tempo rate notes = .ok first) : 0 ≤ first := by
  induction notes generalizing first with
  | nil =>
    cases h
    exact Int.le_refl _
  | cons note rest ih =>
    obtain ⟨count, later, hcount, hlater, rfl⟩ := start_cons.mp h
    have := noteCount_nonneg htempo hrate hcount
    have := ih hlater
    omega

/-- Notes behind others start where those end. -/
theorem start_append {notes later : List Note} {total : Int} :
    start tempo rate (notes ++ later) = .ok total ↔
      ∃ first rest, start tempo rate notes = .ok first ∧ start tempo rate later = .ok rest ∧
        total = first + rest := by
  induction notes generalizing total with
  | nil => simp [start]
  | cons note notes ih =>
    simp only [List.cons_append, start_cons, ih]
    constructor
    · rintro ⟨count, -, hcount, ⟨first, rest, hfirst, hrest, rfl⟩, rfl⟩
      exact ⟨count + first, rest, ⟨count, first, hcount, hfirst, rfl⟩, hrest, by omega⟩
    · rintro ⟨-, rest, ⟨count, first, hcount, hfirst, rfl⟩, hrest, rfl⟩
      exact ⟨count, first + rest, hcount, ⟨first, rest, hfirst, hrest, rfl⟩, by omega⟩

/-- Starts and counts are settled by durations. -/
theorem noteCount_congr {note note' : Note} (h : note'.duration = note.duration) :
    noteCount tempo rate note' = noteCount tempo rate note := by
  unfold noteCount Note.seconds
  rw [h]

theorem start_congr {notes notes' : List Note}
    (h : notes'.map (·.duration) = notes.map (·.duration)) :
    start tempo rate notes' = start tempo rate notes := by
  induction notes generalizing notes' with
  | nil => rw [List.map_eq_nil_iff.mp h]
  | cons note rest ih =>
    cases notes' with
    | nil => cases h
    | cons note' rest' =>
      rw [List.map_cons, List.map_cons, List.cons.injEq] at h
      rw [start, start, noteCount_congr h.1, ih h.2]

/-! ## Windows, one note after the other -/

variable {head note : Note} {later : List Note} {k place distance : Nat} {count : Int}

theorem inWindow_nil : ¬ InWindow tempo rate [] k note place distance := fun h => by
  simpa using h.note_eq

/-- Whichever note the place is in the window of, the count of the first is a number. -/
theorem InWindow.exists_noteCount_head
    (h : InWindow tempo rate (head :: later) k note place distance) :
    ∃ count, noteCount tempo rate head = .ok count := by
  cases k with
  | zero =>
    obtain rfl : head = note := by simpa using h.note_eq
    exact h.lasts.imp fun count hcount => hcount.1
  | succ k =>
    obtain ⟨first, hfirst, -⟩ := h.starts
    rw [List.take_succ_cons] at hfirst
    obtain ⟨count, -, hcount, -⟩ := start_cons.mp hfirst
    exact ⟨count, hcount⟩

/-- The window of the first note begins at the start. -/
theorem inWindow_zero (hcount : noteCount tempo rate head = .ok count) :
    InWindow tempo rate (head :: later) 0 note place distance ↔
      note = head ∧ place = distance ∧ (distance : Int) < count := by
  constructor
  · rintro ⟨hnote, ⟨first, hfirst, hplace⟩, ⟨count', hcount', hlt⟩⟩
    obtain rfl : head = note := by simpa using hnote
    rw [hcount] at hcount'
    cases hcount'
    cases hfirst
    exact ⟨rfl, by omega, hlt⟩
  · rintro ⟨rfl, rfl, hlt⟩
    exact ⟨rfl, ⟨0, rfl, by omega⟩, ⟨count, hcount, hlt⟩⟩

/-- **The other windows are put off by the count of the first note.** -/
theorem inWindow_succ (htempo : tempo.isNotPositive = false) (hrate : rate.isNotPositive = false)
    (hcount : noteCount tempo rate head = .ok count) :
    InWindow tempo rate (head :: later) (k + 1) note place distance ↔
      count ≤ place ∧ InWindow tempo rate later k note (place - count.toNat) distance := by
  have hnonneg := noteCount_nonneg htempo hrate hcount
  constructor
  · rintro ⟨hnote, ⟨first, hfirst, hplace⟩, hlasts⟩
    rw [List.take_succ_cons] at hfirst
    obtain ⟨count', first', hcount', hfirst', rfl⟩ := start_cons.mp hfirst
    rw [hcount] at hcount'
    cases hcount'
    -- A later note does not start in front of the end of the first one.
    have := start_nonneg htempo hrate hfirst'
    exact ⟨by omega, by simpa using hnote, ⟨first', hfirst', by omega⟩, hlasts⟩
  · rintro ⟨hle, hnote, ⟨first, hfirst, hplace⟩, hlasts⟩
    refine ⟨by simpa using hnote, ⟨count + first, ?_, by omega⟩, hlasts⟩
    rw [List.take_succ_cons]
    exact start_cons.mpr ⟨count, first, hcount, hfirst, rfl⟩

/-- **Windows do not meet.** A place is in one window at most. -/
theorem InWindow.unique {notes : List Note} {k' : Nat} {note' : Note} {distance' : Nat}
    (htempo : tempo.isNotPositive = false) (hrate : rate.isNotPositive = false)
    (h : InWindow tempo rate notes k note place distance)
    (h' : InWindow tempo rate notes k' note' place distance') :
    k = k' ∧ note = note' ∧ distance = distance' := by
  induction notes generalizing k k' place with
  | nil => exact absurd h inWindow_nil
  | cons head later ih =>
    obtain ⟨count, hcount⟩ := h.exists_noteCount_head
    cases k with
    | zero =>
      obtain ⟨rfl, rfl, hlt⟩ := (inWindow_zero hcount).mp h
      cases k' with
      | zero =>
        obtain ⟨rfl, rfl, -⟩ := (inWindow_zero hcount).mp h'
        exact ⟨rfl, rfl, rfl⟩
      | succ k' =>
        have := ((inWindow_succ htempo hrate hcount).mp h').1
        omega
    | succ k =>
      obtain ⟨hle, hin⟩ := (inWindow_succ htempo hrate hcount).mp h
      cases k' with
      | zero =>
        obtain ⟨-, rfl, hlt⟩ := (inWindow_zero hcount).mp h'
        omega
      | succ k' =>
        obtain ⟨rfl, hsame⟩ := ih hin ((inWindow_succ htempo hrate hcount).mp h').2
        exact ⟨rfl, hsame⟩

/-! ## Another note in the place of one -/

/-- Notes that last as long have the same windows: only the note there is another one. -/
theorem inWindow_set {notes : List Note} {old new : Note} {n : Nat} (hold : notes[n]? = some old)
    (hduration : new.duration = old.duration) :
    InWindow tempo rate (notes.set n new) k note place distance ↔
      if k = n then note = new ∧ InWindow tempo rate notes n old place distance
      else InWindow tempo rate notes k note place distance := by
  have hstart : start tempo rate ((notes.set n new).take k) = start tempo rate (notes.take k) := by
    refine start_congr ?_
    obtain ⟨hn, rfl⟩ := List.getElem?_eq_some_iff.mp hold
    rw [List.map_take, List.map_take, List.map_set, hduration, ← List.map_set,
      List.set_getElem_self]
  split
  · rename_i hk
    subst hk
    have hn := (List.getElem?_eq_some_iff.mp hold).1
    have hcount : noteCount tempo rate new = noteCount tempo rate old := noteCount_congr hduration
    constructor
    · rintro ⟨hnote, hstarts, hlasts⟩
      obtain rfl : new = note := by simpa [hn] using hnote
      exact ⟨rfl, hold, hstart ▸ hstarts, hcount ▸ hlasts⟩
    · rintro ⟨rfl, -, hstarts, hlasts⟩
      exact ⟨by simp [hn], hstart ▸ hstarts, hcount ▸ hlasts⟩
  · rename_i hk
    have hnote : (notes.set n new)[k]? = notes[k]? := List.getElem?_set_ne (Ne.symm hk)
    constructor
    · rintro ⟨hsome, hstarts, hlasts⟩
      exact ⟨hnote ▸ hsome, hstart ▸ hstarts, hlasts⟩
    · rintro ⟨hsome, hstarts, hlasts⟩
      exact ⟨hnote ▸ hsome, hstart ▸ hstarts, hlasts⟩

end Rendering
end Chiptune
