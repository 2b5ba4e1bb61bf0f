import Chiptune.Decimal.Fixed

/-!
# Numbers of bytes

A number of bytes is told in the greatest binary unit of which there is at least one, with three
digits; where the whole number of units has more than three, with all of them. The point stays where
nothing stands behind it, so that what is rounded can be told from what is counted.
-/

namespace Chiptune
namespace Decimal

/-- The units, each 1024 times the one before it. -/
def byteUnits : List String := ["bytes", "KiB", "MiB", "GiB", "TiB", "PiB", "EiB"]

/-- A quotient rounded to places behind the point, which is written even where there are none. -/
def pointed (num den places : Nat) : String :=
  let units := Binary64.roundQuotient (num * Nat.pow 10 places) den
  String.ofList (withPoint places units ++ if places = 0 then ['.'] else [])

/-- A number of units, with three digits or more. -/
def unitCount (num den : Nat) : String :=
  if Binary64.roundQuotient (num * 100) den < 1000 then pointed num den 2
  else if Binary64.roundQuotient (num * 10) den < 1000 then pointed num den 1
  else pointed num den 0

/-- A number of bytes in words. What rounds to 1024 of a unit is one of the next. -/
def byteCount (bytes : Nat) : String :=
  let start := bytes.log2 / 10
  let step := if Binary64.roundQuotient bytes (Nat.pow 1024 start) = 1024 then start + 1 else start
  let last := min step (byteUnits.length - 1)
  let count := if last = 0 then toString bytes else unitCount bytes (Nat.pow 1024 last)
  count ++ " " ++ byteUnits.getD last ""

end Decimal
end Chiptune
