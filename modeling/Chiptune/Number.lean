import Chiptune.Binary64.Ratio
import Chiptune.Decimal.Shortest
import Chiptune.Error

/-!
# Numbers

A number is a whole number of any size, a float, or a truth value, which counts as zero or one.
Whole numbers stay exact until they meet a float; what is past the greatest float is refused and
never becomes an infinity.
-/

namespace Chiptune

/-- A number as settings and tempos have it. -/
inductive Number where
  | whole (value : Int)
  | real (value : Float)
  | flag (value : Bool)
  deriving Repr

namespace Binary64

/-- The float nearest to a whole number. -/
def ofInt (n : Int) : Except Error Float :=
  match nearest? n 1 with
  | some x => .ok x
  | none => .error (.arithmetic .integerTooLarge)

/-- The float nearest to the quotient of a whole number and a positive one. -/
def ofQuotient (n : Int) (d : Nat) : Except Error Float :=
  match nearest? n d with
  | some x => .ok x
  | none => .error (.arithmetic .quotientTooLarge)

/-- A quotient of floats. -/
def divide (x y : Float) : Except Error Float :=
  if y == 0 then .error (.arithmetic .divisionByZero) else .ok (x / y)

/-- A whole number from a float, by a rule for the numbers between. -/
def toInt (rule : Dyadic → Int) (x : Float) : Except Error Int :=
  match view x with
  | .finite d => .ok (rule d)
  | .infinite _ => .error (.arithmetic .infinityToInteger)
  | .nan => .error (.arithmetic .nanToInteger)

end Binary64

namespace Number

/-- What a number stands for: a whole number or a float. -/
inductive Measure where
  | exact (value : Int)
  | approximate (value : Float)
  deriving Repr

/-- A number without the difference between whole numbers and truth values. -/
def measure : Number → Measure
  | whole n => .exact n
  | real x => .approximate x
  | flag b => .exact (if b then 1 else 0)

/-- The float nearest to a number. -/
def toFloat (n : Number) : Except Error Float :=
  match n.measure with
  | .exact k => Binary64.ofInt k
  | .approximate x => .ok x

/-- Whether a number is below zero. -/
def isNegative (n : Number) : Bool :=
  match n.measure with
  | .exact k => k < 0
  | .approximate x => x < 0

/-- Whether a number is zero. -/
def isZero (n : Number) : Bool :=
  match n.measure with
  | .exact k => k == 0
  | .approximate x => x == 0

/-- Whether a number is refused where a positive one is wanted. A not-a-number passes. -/
def isNotPositive (n : Number) : Bool := n.isNegative || n.isZero

theorem isNegative_eq_false {n : Number} (h : ¬ n.isNegative = true) : n.isNegative = false :=
  Bool.eq_false_iff.2 h

theorem isNotPositive_eq_false {n : Number} (h : ¬ n.isNotPositive = true) :
    n.isNotPositive = false :=
  Bool.eq_false_iff.2 h

/-- A product; exact unless one side is a float. -/
def mul (a b : Number) : Except Error Number :=
  match a.measure, b.measure with
  | .exact j, .exact k => .ok (whole (j * k))
  | .approximate x, .approximate y => .ok (real (x * y))
  | .exact j, .approximate y => do return real ((← Binary64.ofInt j) * y)
  | .approximate x, .exact k => do return real (x * (← Binary64.ofInt k))

/-- A sum; exact unless one side is a float. -/
def add (a b : Number) : Except Error Number :=
  match a.measure, b.measure with
  | .exact j, .exact k => .ok (whole (j + k))
  | .approximate x, .approximate y => .ok (real (x + y))
  | .exact j, .approximate y => do return real ((← Binary64.ofInt j) + y)
  | .approximate x, .exact k => do return real (x + (← Binary64.ofInt k))

/-- A number cut to a whole one, on the side of zero. -/
def truncate (n : Number) : Except Error Int :=
  match n.measure with
  | .exact k => .ok k
  | .approximate x => Binary64.toInt Binary64.Dyadic.truncate x

/-- A number rounded to a whole one, ties to even. -/
def round (n : Number) : Except Error Int :=
  match n.measure with
  | .exact k => .ok k
  | .approximate x => Binary64.toInt Binary64.Dyadic.round x

/-- A number as text. -/
def text : Number → Except Error String
  | whole n => if Decimal.isWritable n then .ok (toString n) else .error .tooManyDigits
  | real x => .ok (Decimal.writeFloat x)
  | flag b => .ok (if b then "True" else "False")

end Number

end Chiptune
