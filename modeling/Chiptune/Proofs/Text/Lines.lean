import Mathlib.Data.List.TakeWhile
import Chiptune.Text.Lines

/-!
# Cutting a text into lines

`Text.lines` goes through a text character by character. What uses it wants to know one thing: a
text is its first line, a break and the lines behind that (`lines_append_break`). From this comes
the form in which lines are taken apart elsewhere, `flatMap_lines`: whatever can be computed piece
by piece at line breaks can be computed line by line.
-/

namespace Chiptune
namespace Text

/-- What is behind a line break, the line feed of a double one gone. -/
def behindBreak (c : Char) (rest : List Char) : List Char :=
  if c = '\r' ∧ rest.head? = some '\n' then rest.tail else rest

/-- Puts a character in front of the first line. -/
def consLine (c : Char) : List (List Char) → List (List Char)
  | [] => [[c]]
  | line :: later => (c :: line) :: later

theorem lines_cons {c : Char} {rest : List Char}
    (h : ¬ (c = '\r' ∧ rest.head? = some '\n')) :
    lines (c :: rest) =
      if isLineBreak c then [] :: lines rest else consLine c (lines rest) := by
  rw [lines.eq_def]
  split
  · rename_i heq
    cases heq
  · rename_i later heq
    cases heq
    exact absurd ⟨rfl, rfl⟩ h
  · rename_i heq
    cases heq
    cases lines rest <;> rfl

theorem lines_cons_of_break {c : Char} {rest : List Char} (hc : isLineBreak c = true) :
    lines (c :: rest) = [] :: lines (behindBreak c rest) := by
  unfold behindBreak
  by_cases h : c = '\r' ∧ rest.head? = some '\n'
  · obtain ⟨later, rfl⟩ : ∃ later, rest = '\n' :: later := by
      cases rest with
      | nil => simp at h
      | cons d later => exact ⟨later, by simpa using h.2⟩
    rw [if_pos h, h.1]
    rfl
  · rw [if_neg h, lines_cons h, if_pos hc]

theorem lines_cons_of_not_break {c : Char} {rest : List Char} (hc : isLineBreak c = false) :
    lines (c :: rest) = consLine c (lines rest) := by
  have hone : ¬ (c = '\r' ∧ rest.head? = some '\n') := by
    rintro ⟨rfl, -⟩
    exact absurd hc (by decide)
  rw [lines_cons hone, if_neg (by simp [hc])]

/-- **A text is its first line, a break, and the lines behind it.** -/
theorem lines_append_break {run rest : List Char} {c : Char}
    (hrun : ∀ d ∈ run, isLineBreak d = false) (hc : isLineBreak c = true) :
    lines (run ++ c :: rest) = run :: lines (behindBreak c rest) := by
  induction run with
  | nil => exact lines_cons_of_break hc
  | cons d run ih =>
    rw [List.cons_append, lines_cons_of_not_break (hrun d (by simp)),
      ih fun e he => hrun e (List.mem_cons_of_mem _ he)]
    rfl

theorem lines_of_no_break {run : List Char} (hne : run ≠ [])
    (hrun : ∀ d ∈ run, isLineBreak d = false) : lines run = [run] := by
  induction run with
  | nil => exact absurd rfl hne
  | cons d run ih =>
    rw [lines_cons_of_not_break (hrun d (by simp))]
    cases run with
    | nil => rfl
    | cons e run =>
      rw [ih (by simp) fun f hf => hrun f (List.mem_cons_of_mem _ hf)]
      rfl

/-- **What falls apart at line breaks can be computed line by line.** -/
theorem flatMap_lines {α : Type} {f : List Char → List α} (hnil : f [] = [])
    (hbreak : ∀ run c rest, isLineBreak c = true → f (run ++ c :: rest) = f run ++ f rest)
    (text : List Char) : (lines text).flatMap f = f text := by
  have hbehind : ∀ c rest, f (behindBreak c rest) = f rest := by
    intro c rest
    unfold behindBreak
    split
    · rename_i h
      obtain ⟨later, rfl⟩ : ∃ later, rest = '\n' :: later := by
        cases rest with
        | nil => simp at h
        | cons d later => exact ⟨later, by simpa using h.2⟩
      have := hbreak [] '\n' later (by decide)
      rw [List.nil_append, hnil, List.nil_append] at this
      exact this.symm
    · rfl
  -- By the number of characters: each round takes the first line and the break behind it.
  induction hlength : text.length using Nat.strong_induction_on generalizing text with
  | _ n ih =>
    have hrun : ∀ d ∈ text.takeWhile fun c => !isLineBreak c, isLineBreak d = false := by
      intro d hd
      simpa using List.mem_takeWhile_imp hd
    have htext := List.takeWhile_append_dropWhile (p := fun c => !isLineBreak c) (l := text)
    cases hrest : text.dropWhile fun c => !isLineBreak c with
    | nil =>
      rw [hrest, List.append_nil] at htext
      rw [htext] at hrun
      by_cases hne : text = []
      · rw [hne, hnil]
        rfl
      · rw [lines_of_no_break hne hrun, List.flatMap_singleton]
    | cons c rest =>
      have hc : isLineBreak c = true := by
        have h := List.head?_dropWhile_not (fun c => !isLineBreak c) text
        rw [hrest] at h
        simpa using h
      have hshort : (behindBreak c rest).length ≤ rest.length := by
        unfold behindBreak
        split <;> simp
      rw [hrest] at htext
      rw [← htext, lines_append_break hrun hc, List.flatMap_cons, hbreak _ _ _ hc, ← hbehind c rest]
      congr 1
      refine ih (behindBreak c rest).length ?_ (behindBreak c rest) rfl
      rw [← hlength, ← htext, List.length_append, List.length_cons]
      omega

end Text
end Chiptune
