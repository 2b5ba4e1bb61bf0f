import Chiptune.Text.Blank
import Chiptune.Text.Digit

/-!
# Whole numbers as text

Reading takes decimal digits of any script, a sign in front and single underscores between the
digits, with blanks around all of it. Neither reading nor writing goes past 4300 decimal digits:
the work grows with the square of their number.
-/

namespace Chiptune
namespace Decimal

/-- The most decimal digits that are read or written. -/
def maxDigits : Nat := 4300

/-- Whether a number has few enough digits to be written. The sign does not count. -/
def isWritable (n : Int) : Bool := n.natAbs < Nat.pow 10 maxDigits

/-- A number with its sign, also where it is not negative. -/
def signed (n : Int) : String := (if n < 0 then "-" else "+") ++ toString n.natAbs

/-- Why a text is not read as a whole number. -/
inductive ReadFault where
  | malformed
  | tooLong (digits : Nat)
  deriving DecidableEq, Repr

/-- The value of a digit in a base of up to thirty-six: a decimal digit of any script, or a
letter of ASCII for ten and above. -/
def baseDigit? (base : Nat) (c : Char) : Option Nat :=
  let value? :=
    match Text.digitValue? c with
    | some d => some d
    | none =>
      if 'a' ≤ c ∧ c ≤ 'z' then some (c.toNat - 'a'.toNat + 10)
      else if 'A' ≤ c ∧ c ≤ 'Z' then some (c.toNat - 'A'.toNat + 10)
      else none
  value?.filter (· < base)

/-- Splits a sign off. -/
def splitSign : List Char → Bool × List Char
  | '-' :: rest => (true, rest)
  | '+' :: rest => (false, rest)
  | text => (false, text)

/-- The marks that may stand before the digits of a base. -/
def baseMarks : Nat → List Char
  | 2 => ['b', 'B']
  | 8 => ['o', 'O']
  | 16 => ['x', 'X']
  | _ => []

/-- Drops the mark of a base, and one underscore behind it. -/
def dropBaseMark (base : Nat) : List Char → List Char
  | '0' :: mark :: rest =>
    if (baseMarks base).contains mark then
      match rest with
      | '_' :: digits => digits
      | _ => rest
    else
      '0' :: mark :: rest
  | text => text

/-- Whether every underscore of a run of digits stands between two digits. `afterDigit` says
whether a digit came just before. -/
def underscoresSeparate (afterDigit : Bool) : List Char → Bool
  | [] => afterDigit
  | '_' :: rest => afterDigit && underscoresSeparate false rest
  | _ :: rest => underscoresSeparate true rest

/-- Reads a whole number in a base. The digits are counted only in base ten, where a number with
too many of them is refused even if more text follows. -/
def readBase (base : Nat) (text : List Char) : Except ReadFault Int :=
  let (negative, unsigned) := splitSign (Text.trimBlanks text)
  let body := dropBaseMark base unsigned
  let run := body.takeWhile fun c => c == '_' || (baseDigit? base c).isSome
  let digits := run.filterMap (baseDigit? base)
  if run ≠ [] ∧ underscoresSeparate false run = false then .error .malformed
  else if base = 10 ∧ digits.length > maxDigits then .error (.tooLong digits.length)
  else if digits = [] ∨ body.length > run.length then .error .malformed
  else
    let value : Nat := digits.foldl (fun value d => base * value + d) 0
    .ok (if negative then -(value : Int) else value)

/-- Reads a whole number in base ten. -/
def read (text : List Char) : Except ReadFault Int := readBase 10 text

end Decimal
end Chiptune
