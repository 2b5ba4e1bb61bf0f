/-!
# What a float stands for

A finite float is an integer times a power of two. Everything that has to be exact (rounding to
a whole number, decimal digits, remainders) is decided on that pair and never on the float.
-/

namespace Chiptune
namespace Binary64

/-- The number `mantissa · 2 ^ exponent`. -/
structure Dyadic where
  mantissa : Int
  exponent : Int
  deriving DecidableEq, Repr

/-- What a float stands for. -/
inductive View where
  | finite (value : Dyadic)
  | infinite (negative : Bool)
  | nan
  deriving DecidableEq, Repr

/-- The bits of a float as a number. -/
def bits (x : Float) : Nat := x.toBits.toNat

/-- The sign bit, which zero has as well. -/
def isNegative (x : Float) : Bool := x.toBits >>> 63 == 1

/-- The biased exponent, from 0 to 2047. -/
def biasedExponent (x : Float) : Nat := (x.toBits >>> 52 &&& 0x7ff).toNat

/-- The 52 bits below the exponent. -/
def fraction (x : Float) : Nat := (x.toBits &&& 0xfffffffffffff).toNat

/-- The significand of a finite float as a whole number. -/
def significand (x : Float) : Nat :=
  if biasedExponent x = 0 then fraction x else Nat.pow 2 52 + fraction x

/-- The power of two that scales the significand. -/
def scale (x : Float) : Int :=
  if biasedExponent x = 0 then -1074 else (biasedExponent x : Int) - 1075

/-- Reads a float. -/
def view (x : Float) : View :=
  if biasedExponent x = 2047 then
    if fraction x = 0 then .infinite (isNegative x) else .nan
  else
    let magnitude : Int := significand x
    .finite ⟨if isNegative x then -magnitude else magnitude, scale x⟩

/-- Whether a float is a number or an infinity. -/
def isNaN (x : Float) : Bool :=
  match view x with
  | .nan => true
  | _ => false

namespace Dyadic

/-- The greatest whole number that is not above the value. -/
def floor (d : Dyadic) : Int :=
  match d.exponent with
  | .ofNat e => d.mantissa * Nat.pow 2 e
  | .negSucc e => d.mantissa / Nat.pow 2 (e + 1)

/-- The least whole number that is not below the value. -/
def ceil (d : Dyadic) : Int := -(Dyadic.floor ⟨-d.mantissa, d.exponent⟩)

/-- The whole number next to the value on the side of zero. -/
def truncate (d : Dyadic) : Int := if d.mantissa < 0 then d.ceil else d.floor

/-- The whole number nearest to the value; the even one of two that are equally near. -/
def round (d : Dyadic) : Int :=
  match d.exponent with
  | .ofNat e => d.mantissa * Nat.pow 2 e
  | .negSucc e =>
    let unit : Int := Nat.pow 2 (e + 1)
    let low := d.mantissa / unit
    let twice := 2 * (d.mantissa % unit)
    if twice < unit then low
    else if twice > unit then low + 1
    else if low % 2 = 0 then low
    else low + 1

end Dyadic

end Binary64
end Chiptune
