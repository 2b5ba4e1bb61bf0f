import Mathlib.Algebra.Group.Nat.Defs
import Mathlib.Data.List.Induction
import Mathlib.Data.List.TakeWhile
import Chiptune.Decimal.Integer

/-!
# Reading a run of digits

`Decimal.read` takes blanks, a sign, underscores and marks of a base besides digits. On a text of
digits alone, of whatever script, none of that applies: the number read is the value of the run,
and the only refusal left is the one of too many digits (`read_of_digits`).
-/

namespace Chiptune
namespace Decimal

open Text

theorem digitsValue_lt (digits : List Char) : digitsValue digits < 10 ^ digits.length := by
  induction digits using List.reverseRecOn with
  | nil => exact Nat.one_pos
  | append_singleton before c ih =>
    have hdigit : (digitValue? c).getD 0 ≤ 9 := by
      cases hc : digitValue? c with
      | none => exact Nat.zero_le 9
      | some d => exact digitValue?_le hc
    have hconcat : digitsValue (before ++ [c]) =
        10 * digitsValue before + (digitValue? c).getD 0 := by
      unfold digitsValue
      rw [List.foldl_append]
      rfl
    rw [hconcat, List.length_append, List.length_singleton, Nat.pow_succ]
    omega

theorem isWritable_iff {n : Int} : isWritable n = true ↔ n.natAbs < 10 ^ maxDigits := by
  unfold isWritable
  -- The power is not for computing.
  generalize maxDigits = most
  exact decide_eq_true_iff

/-- No digit is a blank. The two tables are compared range by range. -/
theorem not_isBlank_of_isDigit {c : Char} (h : isDigit c = true) : isBlank c = false := by
  obtain ⟨d, hd⟩ := Option.isSome_iff_exists.1 h
  obtain ⟨origin, found, -⟩ := Option.map_eq_some_iff.1 hd
  have bounds := List.find?_some found
  simp only [Bool.and_eq_true, decide_eq_true_eq] at bounds
  have hapart : digitZeros.all (fun origin =>
      blankRanges.all fun r => r.2 < origin || origin + 9 < r.1) = true := by decide +kernel
  have hall := List.all_eq_true.1 hapart origin (List.mem_of_find?_eq_some found)
  unfold isBlank Ranges.holds
  rw [List.any_eq_false]
  intro r hr
  have := List.all_eq_true.1 hall r hr
  simp only [Bool.or_eq_true, decide_eq_true_eq] at this
  simp only [Bool.and_eq_true, decide_eq_true_eq, not_and]
  omega

theorem trimBlanks_of_digits {text : List Char} (h : ∀ c ∈ text, isDigit c = true) :
    trimBlanks text = text := by
  have hdrop : ∀ {l : List Char}, (∀ c ∈ l, isDigit c = true) → l.dropWhile isBlank = l := by
    intro l hl
    rw [List.dropWhile_eq_self_iff]
    intro hpos
    rw [not_isBlank_of_isDigit (hl _ (List.getElem_mem hpos))]
    simp
  unfold trimBlanks
  rw [hdrop h, hdrop fun c hc => h c (List.mem_reverse.mp hc), List.reverse_reverse]

theorem splitSign_of_digits {text : List Char} (h : ∀ c ∈ text, isDigit c = true) :
    splitSign text = (false, text) := by
  unfold splitSign
  split
  · exact absurd (h '-' (by simp)) (by decide)
  · exact absurd (h '+' (by simp)) (by decide)
  · rfl

/-- Base ten has no mark. -/
theorem dropBaseMark_ten (text : List Char) : dropBaseMark 10 text = text := by
  unfold dropBaseMark
  split
  · simp [baseMarks]
  · rfl

theorem baseDigit?_ten_of_isDigit {c : Char} (h : isDigit c = true) :
    baseDigit? 10 c = digitValue? c := by
  obtain ⟨d, hd⟩ := Option.isSome_iff_exists.1 h
  have := digitValue?_le hd
  simp [baseDigit?, hd, show d < 10 by omega]

theorem underscoresSeparate_cons {c : Char} (h : isDigit c = true) (afterDigit : Bool)
    (rest : List Char) :
    underscoresSeparate afterDigit (c :: rest) = underscoresSeparate true rest := by
  have hne : c ≠ '_' := by
    rintro rfl
    exact absurd h (by decide)
  simp [underscoresSeparate]

theorem underscoresSeparate_of_digits :
    ∀ {text : List Char}, (∀ c ∈ text, isDigit c = true) → underscoresSeparate true text = true
  | [], _ => rfl
  | c :: rest, h => by
    rw [underscoresSeparate_cons (h c (by simp))]
    exact underscoresSeparate_of_digits fun d hd => h d (List.mem_cons_of_mem _ hd)

/-- The digits of a run and their value, from any value on. -/
theorem foldl_digits (text : List Char) (h : ∀ c ∈ text, isDigit c = true) (value : Nat) :
    (text.filterMap (baseDigit? 10)).foldl (fun value d => 10 * value + d) value =
      text.foldl (fun value c => 10 * value + (digitValue? c).getD 0) value := by
  induction text generalizing value with
  | nil => rfl
  | cons c rest ih =>
    have hc : isDigit c = true := h c (by simp)
    obtain ⟨d, hd⟩ := Option.isSome_iff_exists.1 hc
    have hbase : baseDigit? 10 c = some d := by rw [baseDigit?_ten_of_isDigit hc, hd]
    rw [List.filterMap_cons_some hbase, List.foldl_cons, List.foldl_cons, hd]
    exact ih (fun e he => h e (List.mem_cons_of_mem _ he)) _

theorem length_filterMap_digits (text : List Char) (h : ∀ c ∈ text, isDigit c = true) :
    (text.filterMap (baseDigit? 10)).length = text.length := by
  induction text with
  | nil => rfl
  | cons c rest ih =>
    have hc : isDigit c = true := h c (by simp)
    obtain ⟨d, hd⟩ := Option.isSome_iff_exists.1 hc
    have hbase : baseDigit? 10 c = some d := by rw [baseDigit?_ten_of_isDigit hc, hd]
    rw [List.filterMap_cons_some hbase, List.length_cons, List.length_cons,
      ih fun e he => h e (List.mem_cons_of_mem _ he)]

/-- **A run of digits reads as its value**, unless it is too long to be read at all. -/
theorem read_of_digits {text : List Char} (hne : text ≠ []) (h : ∀ c ∈ text, isDigit c = true) :
    read text =
      if maxDigits < text.length then .error (.tooLong text.length)
      else .ok (digitsValue text : Int) := by
  have hrun : text.takeWhile (fun c => c == '_' || (baseDigit? 10 c).isSome) = text := by
    rw [List.takeWhile_eq_self_iff]
    intro c hc
    have hdigit : (digitValue? c).isSome = true := h c hc
    rw [baseDigit?_ten_of_isDigit (h c hc), hdigit, Bool.or_true]
  have hseparate : underscoresSeparate false text = true := by
    cases text with
    | nil => exact absurd rfl hne
    | cons c rest =>
      rw [underscoresSeparate_cons (h c (by simp))]
      exact underscoresSeparate_of_digits fun d hd => h d (List.mem_cons_of_mem _ hd)
  have hlength := length_filterMap_digits text h
  have hdigits : text.filterMap (baseDigit? 10) ≠ [] := by
    intro hnil
    rw [hnil] at hlength
    exact hne (List.length_eq_zero_iff.mp hlength.symm)
  unfold read readBase
  simp only [trimBlanks_of_digits h, splitSign_of_digits h, dropBaseMark_ten, hrun, hseparate,
    hlength]
  by_cases hlong : maxDigits < text.length
  · simp [hlong]
  · simp [hlong, hdigits, foldl_digits text h, digitsValue]

end Decimal
end Chiptune
