import Chiptune.Instruction.Kind
import Chiptune.Text.Digit

/-!
# What an instruction looks like

Each kind of instruction has one pattern, matched at the head of a text. A match takes as many
characters as the pattern allows, and at least one. Digits are decimal digits of any script, and
the name of a timbre is made of word characters of any script; notes are spelled in ASCII.
-/

namespace Chiptune

/-- A match at the head of a text: how many characters it takes, and what it captures. -/
structure Match where
  length : Nat
  argument : List Char
  deriving DecidableEq, Repr

namespace Pattern

/-- The decimal digits at the head of a text. -/
def digits (text : List Char) : List Char := text.takeWhile Text.isDigit

/-- One of two marks and then a number, which is captured. -/
def numberBehind (upper lower : Char) : List Char → Option Match
  | [] => none
  | c :: rest =>
    if (c = upper ∨ c = lower) ∧ digits rest ≠ [] then
      some ⟨(digits rest).length + 1, digits rest⟩
    else
      none

/-- A mark alone. -/
def mark (expected : Char) : List Char → Option Match
  | [] => none
  | c :: _ => if c = expected then some ⟨1, []⟩ else none

/-- Whether a character may be the letter of a note, `[A-Ga-gR]`. -/
def isNoteLetter (c : Char) : Bool := ('A' ≤ c && c ≤ 'G') || ('a' ≤ c && c ≤ 'g') || c == 'R'

/-- Whether a character is an accidental, `[#+-]`. -/
def isAccidental (c : Char) : Bool := c == '#' || c == '+' || c == '-'

/-- How many characters the note at the head of a text takes. -/
def noteLength? : List Char → Option Nat
  | [] => none
  | c :: rest => if isNoteLetter c then some (1 + (rest.take 1).countP isAccidental) else none

/-- A note, captured with its accidental. -/
def note (text : List Char) : Option Match :=
  (noteLength? text).map fun n => ⟨n, text.take n⟩

/-- A number and a note behind it, both captured. -/
def timedNote (text : List Char) : Option Match :=
  if digits text = [] then none
  else
    (noteLength? (text.dropWhile Text.isDigit)).map fun n =>
      let length := (digits text).length + n
      ⟨length, text.take length⟩

/-- A name in brackets behind an at sign; the name is captured. -/
def timbre : List Char → Option Match
  | '@' :: '(' :: rest =>
    let name := rest.takeWhile Text.isWord
    if name ≠ [] ∧ (rest.dropWhile Text.isWord).head? = some ')' then
      some ⟨name.length + 3, name⟩
    else
      none
  | _ => none

end Pattern

/-- The match of a kind of instruction at the head of a text. -/
def Kind.match? : Kind → List Char → Option Match
  | timbre => Pattern.timbre
  | volume => Pattern.numberBehind 'V' 'v'
  | volumeUp => Pattern.numberBehind '(' '('
  | volumeDown => Pattern.numberBehind ')' ')'
  | octave => Pattern.numberBehind 'O' 'o'
  | octaveUp => Pattern.mark '<'
  | octaveDown => Pattern.mark '>'
  | length => Pattern.numberBehind 'L' 'l'
  | tempo => Pattern.numberBehind 'T' 't'
  | timedNote => Pattern.timedNote
  | note => Pattern.note

namespace Pattern

theorem length_pos_of_numberBehind {upper lower : Char} {text : List Char} {m : Match}
    (h : numberBehind upper lower text = some m) : 0 < m.length := by
  cases text with
  | nil => simp [numberBehind] at h
  | cons c rest =>
    simp only [numberBehind] at h
    split at h
    · cases h
      exact Nat.succ_pos _
    · cases h

theorem length_pos_of_mark {expected : Char} {text : List Char} {m : Match}
    (h : mark expected text = some m) : 0 < m.length := by
  cases text with
  | nil => simp [mark] at h
  | cons c rest =>
    simp only [mark] at h
    split at h
    · cases h
      exact Nat.one_pos
    · cases h

theorem noteLength?_pos {text : List Char} {n : Nat} (h : noteLength? text = some n) : 0 < n := by
  cases text with
  | nil => simp [noteLength?] at h
  | cons c rest =>
    simp only [noteLength?] at h
    split at h
    · cases h
      omega
    · cases h

theorem length_pos_of_note {text : List Char} {m : Match} (h : note text = some m) :
    0 < m.length := by
  obtain ⟨n, found, rfl⟩ := Option.map_eq_some_iff.1 h
  exact noteLength?_pos found

theorem length_pos_of_timedNote {text : List Char} {m : Match} (h : timedNote text = some m) :
    0 < m.length := by
  simp only [timedNote] at h
  split at h
  · cases h
  · obtain ⟨n, found, rfl⟩ := Option.map_eq_some_iff.1 h
    have := noteLength?_pos found
    show 0 < _ + n
    omega

theorem length_pos_of_timbre {text : List Char} {m : Match} (h : timbre text = some m) :
    0 < m.length := by
  unfold timbre at h
  split at h
  · simp only at h
    split at h
    · cases h
      exact Nat.succ_pos _
    · cases h
  · cases h

end Pattern

/-- A match takes at least one character. -/
theorem Kind.length_pos_of_match? {kind : Kind} {text : List Char} {m : Match}
    (h : kind.match? text = some m) : 0 < m.length := by
  cases kind with
  | timbre => exact Pattern.length_pos_of_timbre h
  | octaveUp => exact Pattern.length_pos_of_mark h
  | octaveDown => exact Pattern.length_pos_of_mark h
  | timedNote => exact Pattern.length_pos_of_timedNote h
  | note => exact Pattern.length_pos_of_note h
  | volume => exact Pattern.length_pos_of_numberBehind h
  | volumeUp => exact Pattern.length_pos_of_numberBehind h
  | volumeDown => exact Pattern.length_pos_of_numberBehind h
  | octave => exact Pattern.length_pos_of_numberBehind h
  | length => exact Pattern.length_pos_of_numberBehind h
  | tempo => exact Pattern.length_pos_of_numberBehind h

end Chiptune
