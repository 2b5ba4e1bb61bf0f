import Chiptune.Binary64.Ratio

/-!
# Decimals with a fixed number of places

The exact value of the float is rounded to the places, ties to the even neighbour.
-/

namespace Chiptune
namespace Decimal

/-- The digits of a whole number of units of `10 ^ -places`, with the point put in. -/
def withPoint (places units : Nat) : List Char :=
  let digits := Nat.toDigits 10 units
  let padded := List.replicate (places + 1 - digits.length) '0' ++ digits
  let whole := padded.length - places
  padded.take whole ++ (if places = 0 then [] else '.' :: padded.drop whole)

/-- A float with a fixed number of places. -/
def fixed (places : Nat) (x : Float) : String :=
  match Binary64.view x with
  | .nan => "nan"
  | .infinite negative => if negative then "-inf" else "inf"
  | .finite d =>
    let scaled := d.mantissa.natAbs * Nat.pow 10 places
    let units :=
      match d.exponent with
      | .ofNat e => scaled * Nat.pow 2 e
      | .negSucc e => Binary64.roundQuotient scaled (Nat.pow 2 (e + 1))
    String.ofList ((if Binary64.isNegative x then ['-'] else []) ++ withPoint places units)

end Decimal
end Chiptune
