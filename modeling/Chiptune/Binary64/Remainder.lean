import Chiptune.Binary64.Ratio

/-!
# Remainders

The remainder of a division whose quotient is rounded down, so that it has the sign of the
divisor. The remainder of the truncated division is exact; where its sign is the wrong one, the
divisor is added in floating point, as the last step.
-/

namespace Chiptune
namespace Binary64

/-- A not-a-number. -/
def nan : Float := Float.ofBits 0x7ff8000000000000

/-- The remainder of the magnitudes of two dyadic numbers, in units of two to the smaller of their
exponents, and that exponent. -/
def magnitudeRemainder (a b : Dyadic) : Nat × Int :=
  let unit := min a.exponent b.exponent
  let scaled (d : Dyadic) : Nat := d.mantissa.natAbs * Nat.pow 2 (d.exponent - unit).toNat
  (scaled a % scaled b, unit)

/-- The float nearest to a whole number of units of a power of two. -/
def ofUnits (negative : Bool) (units : Nat) (exponent : Int) : Float :=
  let magnitude :=
    match exponent with
    | .ofNat e => nearestBits (units * Nat.pow 2 e) 1
    | .negSucc e => nearestBits units (Nat.pow 2 (e + 1))
  ofBits negative magnitude

/-- The remainder of the division that truncates its quotient: exact, with the sign of the
dividend. -/
def truncatedRemainder (x y : Float) : Float :=
  match view x, view y with
  | .finite a, .finite b =>
    if b.mantissa = 0 then nan
    else
      let (units, unit) := magnitudeRemainder a b
      ofUnits (isNegative x) units unit
  | .finite _, .infinite _ => x
  | _, _ => nan

/-- The remainder of the division that rounds its quotient down. A remainder of zero takes the
sign of the divisor. -/
def remainder (x y : Float) : Float :=
  let r := truncatedRemainder x y
  if y == 0 then r
  else if r == 0 then ofBits (isNegative y) 0
  else if (y < 0) != (r < 0) then r + y
  else r

end Binary64
end Chiptune
