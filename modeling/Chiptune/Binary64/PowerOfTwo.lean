import Chiptune.Binary64.Ratio

/-!
# Powers of two with a fractional exponent

`2 ^ x` is split at the floor of `x`: the whole part moves the exponent of the result, and the
power of the rest, between one and two, is summed from the exponential series with 160 bits
behind the point. That leaves far more bits than the 53 that are kept, so the result is the
nearest float.
-/

namespace Chiptune
namespace Binary64

/-- The bits behind the point in which the series is summed. -/
def seriesBits : Nat := 160

/-- The natural logarithm of two, in units of `2 ^ -160`. -/
def logTwo : Nat := 0xb17217f7d1cf79abc9e3b39803f2f6af40f34326

/-- The sum of a series whose next term is `term`: each term is the one before it times the
argument, divided by the term's number. -/
def sumTerms (argument : Nat) : Nat → Nat → Nat → Nat
  | 0, _, _ => 0
  | fuel + 1, k, term =>
    term + sumTerms argument fuel (k + 1) (term * argument / (Nat.pow 2 seriesBits * k))

/-- The exponential of an argument between zero and the logarithm of two, both in units of
`2 ^ -160`. The sixtieth term is below the unit. -/
def expSeries (argument : Nat) : Nat := sumTerms argument 60 1 (Nat.pow 2 seriesBits)

/-- The float nearest to two to the power of an exact exponent; none past the greatest float. -/
def powDyadic? (x : Dyadic) : Option Float :=
  let whole := x.floor
  if whole ≥ 1024 then none
  else if whole < -1100 then some 0
  else
    let argument : Nat :=
      match x.exponent with
      | .ofNat _ => 0
      | .negSucc e => (x.mantissa % Nat.pow 2 (e + 1)).toNat * logTwo / Nat.pow 2 (e + 1)
    let power := expSeries argument
    match whole - seriesBits with
    | .ofNat e => nearest? (power * Nat.pow 2 e) 1
    | .negSucc e => nearest? power (Nat.pow 2 (e + 1))

/-- The float nearest to two to the power of a float; none where a finite exponent leads past
the greatest float. -/
def powTwo? (x : Float) : Option Float :=
  match view x with
  | .finite d => powDyadic? d
  | .infinite true => some 0
  | .infinite false => some infinity
  | .nan => some x

end Binary64
end Chiptune
