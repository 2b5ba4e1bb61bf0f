import Chiptune.Binary64.Ratio

/-!
# The shortest decimal of a float

The fewest digits that read back as the same float, and among those the nearest to it. Up to
sixteen digits before the point and three zeros behind it are written out; beyond that the
decimal has an exponent of at least two digits.
-/

namespace Chiptune
namespace Decimal

/-- A decimal number: `digits · 10 ^ exponent`. -/
structure Scientific where
  digits : Nat
  exponent : Int
  deriving DecidableEq, Repr

/-- A decimal number as a quotient. -/
def Scientific.quotient (s : Scientific) : Nat × Nat :=
  match s.exponent with
  | .ofNat e => (s.digits * Nat.pow 10 e, 1)
  | .negSucc e => (s.digits, Nat.pow 10 (e + 1))

/-- The float nearest to a decimal number, by its bits. -/
def Scientific.nearestBits (s : Scientific) : Nat :=
  Binary64.nearestBits s.quotient.1 s.quotient.2

/-- The exponent of the greatest power of ten that is not above a quotient of positive numbers,
searched downwards from a bound. -/
def floorLog10 (num den : Nat) : Nat → Int → Int
  | 0, k => k
  | fuel + 1, k =>
    let fits : Bool :=
      match k with
      | .ofNat e => den * Nat.pow 10 e ≤ num
      | .negSucc e => den ≤ num * Nat.pow 10 (e + 1)
    if fits then k else floorLog10 num den fuel (k - 1)

/-- The two neighbours of a quotient on the grid of the multiples of `10 ^ exponent`, the nearer
one first; the even one of two that are equally near. -/
def gridNeighbours (num den : Nat) (exponent : Int) : List Scientific :=
  let (n, d) :=
    match exponent with
    | .ofNat e => (num, den * Nat.pow 10 e)
    | .negSucc e => (num * Nat.pow 10 (e + 1), den)
  let low := n / d
  let near := Binary64.roundQuotient n d
  [⟨near, exponent⟩, ⟨if near = low then low + 1 else low, exponent⟩]

/-- The first decimal with a number of digits from `count` on that reads back as the float with
the given bits. -/
def shortestFrom (bits num den : Nat) (top : Int) : Nat → Nat → Scientific
  | 0, _ => ⟨0, 0⟩
  | fuel + 1, count =>
    let candidates := gridNeighbours num den (top - count + 1)
    match candidates.find? fun s => s.nearestBits == bits with
    | some s => s
    | none => shortestFrom bits num den top fuel (count + 1)

/-- The shortest decimal of a positive finite float. Seventeen digits always read back. -/
def shortest (x : Float) : Scientific :=
  let significand := Binary64.significand x
  let (num, den) :=
    match Binary64.scale x with
    | .ofNat e => (significand * Nat.pow 2 e, 1)
    | .negSucc e => (significand, Nat.pow 2 (e + 1))
  let top := floorLog10 num den 700 310
  shortestFrom (Binary64.bits x % Nat.pow 2 63) num den top 17 1

/-- Lays digits out around a point that stands behind the first `point` of them. -/
def layOut (digits : List Char) (point : Int) : List Char :=
  if point ≤ -4 ∨ point > 16 then
    let exponent := point - 1
    let magnitude := Nat.toDigits 10 exponent.natAbs
    let mark := if exponent < 0 then '-' else '+'
    let behind :=
      match digits.drop 1 with
      | [] => []
      | rest => '.' :: rest
    digits.take 1 ++ behind ++ 'e' :: mark :: (List.replicate (2 - magnitude.length) '0' ++ magnitude)
  else if point ≤ 0 then
    '0' :: '.' :: (List.replicate (-point).toNat '0' ++ digits)
  else
    let whole := point.toNat
    if digits.length ≤ whole then
      digits ++ List.replicate (whole - digits.length) '0' ++ ['.', '0']
    else
      digits.take whole ++ '.' :: digits.drop whole

/-- A decimal without the zeros at the end of its digits. -/
def trimZeros (digits : List Char) : List Char :=
  (digits.reverse.dropWhile (· == '0')).reverse

/-- A float as its shortest decimal. -/
def writeFloat (x : Float) : String :=
  match Binary64.view x with
  | .nan => "nan"
  | .infinite negative => if negative then "-inf" else "inf"
  | .finite d =>
    let sign := if Binary64.isNegative x then ['-'] else []
    if d.mantissa = 0 then String.ofList (sign ++ ['0', '.', '0'])
    else
      let s := shortest x
      let digits := Nat.toDigits 10 s.digits
      String.ofList (sign ++ layOut (trimZeros digits) (s.exponent + digits.length))

end Decimal
end Chiptune
