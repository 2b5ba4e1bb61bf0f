import Chiptune.Binary64.Dyadic

/-!
# The float nearest to a quotient

A quotient of whole numbers goes to the nearest float, and to the one with the even significand
where two are equally near. Significand and exponent are put together by addition: a significand
that is rounded up to the next power of two carries into the exponent, which is then right.
-/

namespace Chiptune
namespace Binary64

/-- The quotient rounded to a whole number, ties to even. -/
def roundQuotient (num den : Nat) : Nat :=
  let low := num / den
  let twice := 2 * (num % den)
  if twice < den then low
  else if twice > den then low + 1
  else if low % 2 = 0 then low
  else low + 1

/-- The exponent of the greatest power of two that is not above a quotient of positive
numbers. -/
def floorLog2 (num den : Nat) : Int :=
  let guess : Int := (num.log2 : Int) - den.log2
  let fits : Bool :=
    match guess with
    | .ofNat k => den * Nat.pow 2 k ≤ num
    | .negSucc k => den ≤ num * Nat.pow 2 (k + 1)
  if fits then guess else guess - 1

/-- The exponent of the last bit that the nearest float to a quotient has. -/
def lastBit (num den : Nat) : Int := max (floorLog2 num den - 52) (-1074)

/-- A quotient as a whole number of units of `2 ^ p`, ties to even. -/
def roundToUnit (num den : Nat) : Int → Nat
  | .ofNat p => roundQuotient num (den * Nat.pow 2 p)
  | .negSucc p => roundQuotient (num * Nat.pow 2 (p + 1)) den

/-- The bits of the float nearest to a quotient; they read as an infinity, or above it, where the
quotient is past the greatest float. -/
def nearestBits (num den : Nat) : Nat :=
  if num = 0 then 0
  else
    let p := lastBit num den
    (p + 1074).toNat * Nat.pow 2 52 + roundToUnit num den p

/-- The bits of positive infinity. -/
def infinityBits : Nat := 2047 * Nat.pow 2 52

/-- The float with the given sign and bits. -/
def ofBits (negative : Bool) (magnitude : Nat) : Float :=
  Float.ofBits (((if negative then Nat.pow 2 63 else 0) + magnitude).toUInt64)

/-- The float nearest to `num / den`, for a positive `den`; none past the greatest float. -/
def nearest? (num : Int) (den : Nat) : Option Float :=
  let magnitude := nearestBits num.natAbs den
  if magnitude < infinityBits then some (ofBits (num < 0) magnitude) else none

/-- Positive infinity. -/
def infinity : Float := ofBits false infinityBits

end Binary64
end Chiptune
