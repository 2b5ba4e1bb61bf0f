import Chiptune.Binary64.Remainder
import Chiptune.Decimal.Integer

/-!
# Real numbers as text

Decimal digits of any script with a point and an exponent, each of them optional, or the name of an
infinity or of a not-a-number. The result is the float nearest to what is written; past the greatest
float it is an infinity.
-/

namespace Chiptune
namespace Decimal

/-- A decimal number as written: its digits without the point, how many of them stand behind it, and
what the text goes on with. -/
structure Fraction where
  digits : List Char
  places : Nat
  rest : List Char

/-- Reads digits with or without a point. There has to be a digit on one side of it. -/
def readFraction? (text : List Char) : Option Fraction :=
  let whole := text.takeWhile Text.isDigit
  let behind := text.dropWhile Text.isDigit
  let fraction :=
    match behind with
    | '.' :: rest =>
      let places := rest.takeWhile Text.isDigit
      ⟨whole ++ places, places.length, rest.dropWhile Text.isDigit⟩
    | rest => ⟨whole, 0, rest⟩
  if fraction.digits.isEmpty then none else some fraction

/-- Reads an exponent, which may be missing, up to the end of the text. -/
def readExponent? : List Char → Option Int
  | [] => some 0
  | mark :: rest =>
    let (negative, digits) := splitSign rest
    if (mark = 'e' ∨ mark = 'E') ∧ digits ≠ [] ∧ digits.all Text.isDigit then
      let value := Text.digitsValue digits
      some (if negative then -(value : Int) else value)
    else
      none

/-- The float nearest to a number of units of a power of ten. Exponents so far out that the digits
cannot make up for them are not worked out. -/
def nearestDecimal (digits : Nat) (count : Nat) (exponent : Int) : Float :=
  if digits = 0 ∨ exponent + count < -400 then 0
  else if exponent > 400 then Binary64.infinity
  else
    let rounded? :=
      match exponent with
      | .ofNat e => Binary64.nearest? (digits * Nat.pow 10 e) 1
      | .negSucc e => Binary64.nearest? digits (Nat.pow 10 (e + 1))
    rounded?.getD Binary64.infinity

/-- A float with its sign changed. -/
def negateIf (negative : Bool) (x : Float) : Float := if negative then -x else x

/-- Reads a real number. -/
def readReal? (text : List Char) : Option Float :=
  let (negative, body) := splitSign (Text.trimBlanks text)
  let word := String.ofList (body.map Char.toLower)
  if word = "inf" ∨ word = "infinity" then some (negateIf negative Binary64.infinity)
  else if word = "nan" then some Binary64.nan
  else do
    let fraction ← readFraction? body
    let exponent ← readExponent? fraction.rest
    let magnitude :=
      nearestDecimal (Text.digitsValue fraction.digits) fraction.digits.length
        (exponent - fraction.places)
    return negateIf negative magnitude

end Decimal
end Chiptune
