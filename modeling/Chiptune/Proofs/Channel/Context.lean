import Mathlib.Tactic.Common
import Chiptune.Channel.Builder

/-!
# The context behind some instructions

A builder carries a context from instruction to instruction. This file says what that context *is*
at any place, without carrying anything: the octave is the last one set, plus the steps up and
minus the steps down since; volume, default duration and timbre likewise (`Context.behind`).

The definitions look backwards from a place and the builder goes forwards. `Context.step` is what
one instruction does to a context, and `Context.behind_concat` says that the backward view moves by
just that when an instruction is added at the end: the one fact that a run needs of it.
-/

namespace Chiptune

/-! ## The backward view -/

namespace Instruction

/-- The number that the digits of an argument spell. -/
def amount (instruction : Instruction) : Int := Text.digitsValue instruction.argument.toList

/-- Whether an instruction adds a note to its channel. -/
def plays (instruction : Instruction) : Bool :=
  instruction.kind == .note || instruction.kind == .timedNote

/-- The name of the note, behind its digits. -/
def noteName (instruction : Instruction) : List Char :=
  instruction.argument.toList.dropWhile Text.isDigit

/-- The last instruction of a kind. -/
def last (kind : Kind) (before : List Instruction) : Option Instruction :=
  before.reverse.find? (·.kind == kind)

/-- The instructions behind the last one of a kind; all of them where there is none. -/
def since (kind : Kind) (before : List Instruction) : List Instruction :=
  (before.reverse.takeWhile (·.kind != kind)).reverse

/-- The sum of the amounts of the instructions of a kind. -/
def total (kind : Kind) (instructions : List Instruction) : Int :=
  (instructions.filter (·.kind == kind)).foldl (fun sum i => sum + i.amount) 0

/-- How many instructions of a kind there are. -/
def count (kind : Kind) (instructions : List Instruction) : Int :=
  (instructions.countP (·.kind == kind) : Nat)

end Instruction

namespace Context

open Instruction

/-- The octave behind some instructions: the last one set, and the steps since. -/
def octaveAt (before : List Instruction) : Int :=
  ((last .octave before).elim 4 amount) + count .octaveUp (since .octave before) -
    count .octaveDown (since .octave before)

/-- The volume behind some instructions: the last one set, and the changes since. -/
def volumeAt (before : List Instruction) : Int :=
  ((last .volume before).elim 200 amount) + total .volumeUp (since .volume before) -
    total .volumeDown (since .volume before)

/-- The default duration behind some instructions. The duration of a note does not count. -/
def durationAt (before : List Instruction) : Int := (last .length before).elim 4 amount

/-- The timbre behind some instructions. -/
def timbreAt (before : List Instruction) : String := (last .timbre before).elim "sin" (·.argument)

/-- The context behind some instructions, read off them backwards. -/
def behind (before : List Instruction) : Context where
  octave := octaveAt before
  volume := volumeAt before
  duration := durationAt before
  timbre := timbreAt before

end Context

/-! ## One more instruction -/

namespace Instruction

theorem last_concat (kind : Kind) (before : List Instruction) (i : Instruction) :
    last kind (before ++ [i]) = if i.kind = kind then some i else last kind before := by
  unfold last
  rw [List.reverse_concat]
  by_cases h : i.kind = kind
  · rw [List.find?_cons_of_pos (by simpa using h), if_pos h]
  · rw [List.find?_cons_of_neg (by simpa using h), if_neg h]

theorem since_concat (kind : Kind) (before : List Instruction) (i : Instruction) :
    since kind (before ++ [i]) = if i.kind = kind then [] else since kind before ++ [i] := by
  unfold since
  rw [List.reverse_concat, List.takeWhile_cons]
  by_cases h : i.kind = kind <;> simp [h]

theorem total_concat (kind : Kind) (before : List Instruction) (i : Instruction) :
    total kind (before ++ [i]) = total kind before + if i.kind = kind then i.amount else 0 := by
  unfold total
  rw [List.filter_append, List.foldl_append]
  by_cases h : i.kind = kind <;> simp [h]

theorem count_concat (kind : Kind) (before : List Instruction) (i : Instruction) :
    count kind (before ++ [i]) = count kind before + if i.kind = kind then 1 else 0 := by
  unfold count
  rw [List.countP_append]
  by_cases h : i.kind = kind <;> simp [h]

theorem plays_iff {i : Instruction} : i.plays = true ↔ i.kind = .note ∨ i.kind = .timedNote := by
  unfold plays
  rw [Bool.or_eq_true, beq_iff_eq, beq_iff_eq]

@[simp] theorem total_nil (kind : Kind) : total kind [] = 0 := rfl

@[simp] theorem count_nil (kind : Kind) : count kind [] = 0 := rfl

end Instruction

namespace Context

open Instruction

/-- What an instruction does to a context, its number read. -/
def step (context : Context) (i : Instruction) : Context :=
  match i.kind with
  | .timbre => { context with timbre := i.argument }
  | .volume => { context with volume := i.amount }
  | .volumeUp => { context with volume := context.volume + i.amount }
  | .volumeDown => { context with volume := context.volume - i.amount }
  | .octave => { context with octave := i.amount }
  | .octaveUp => { context with octave := context.octave + 1 }
  | .octaveDown => { context with octave := context.octave - 1 }
  | .length => { context with duration := i.amount }
  | .tempo | .timedNote | .note => context

/-- **The backward view moves by one step** when an instruction is added at the end. -/
theorem behind_concat (before : List Instruction) (i : Instruction) :
    behind (before ++ [i]) = (behind before).step i := by
  obtain ⟨offset, kind, argument⟩ := i
  -- Field by field, and for each by kind: an instruction sets the field, moves it or leaves it.
  have hoctave : octaveAt (before ++ [⟨offset, kind, argument⟩]) =
      ((behind before).step ⟨offset, kind, argument⟩).octave := by
    unfold octaveAt
    rw [last_concat, since_concat]
    cases kind <;> simp [step, behind, octaveAt, count_concat] <;> omega
  have hvolume : volumeAt (before ++ [⟨offset, kind, argument⟩]) =
      ((behind before).step ⟨offset, kind, argument⟩).volume := by
    unfold volumeAt
    rw [last_concat, since_concat]
    cases kind <;> simp [step, behind, volumeAt, total_concat] <;> omega
  have hduration : durationAt (before ++ [⟨offset, kind, argument⟩]) =
      ((behind before).step ⟨offset, kind, argument⟩).duration := by
    unfold durationAt
    rw [last_concat]
    cases kind <;> simp [step, behind, durationAt]
  have htimbre : timbreAt (before ++ [⟨offset, kind, argument⟩]) =
      ((behind before).step ⟨offset, kind, argument⟩).timbre := by
    unfold timbreAt
    rw [last_concat]
    cases kind <;> simp [step, behind, timbreAt]
  unfold behind at hoctave hvolume hduration htimbre ⊢
  rw [hoctave, hvolume, hduration, htimbre]

/-- A note takes the context over and leaves it as it is. -/
theorem step_of_plays {context : Context} {i : Instruction} (h : i.plays = true) :
    context.step i = context := by
  unfold step
  rcases Instruction.plays_iff.mp h with hkind | hkind <;> rw [hkind]

end Context

end Chiptune
