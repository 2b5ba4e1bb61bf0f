import Chiptune.Number

/-!
# Buffers

A buffer holds numbers of one kind in a row. It is refused where it cannot be laid out: it may not
have fewer places than none, nor more bytes than can be counted, nor more than there is room for. How
much room there is depends on the machine, and is not for the program to say.
-/

namespace Chiptune

/-- The room for a buffer: the number of bytes from which on there is none. No machine has so much
that the places of a buffer of words could not be told apart as floats. -/
class Room where
  limit : Nat
  limit_le : limit ≤ Nat.pow 2 55

/-- Room for buffers of less than 64 gibibytes. -/
instance : Room := ⟨Nat.pow 2 36, by decide⟩

namespace Rendering

/-- How many places a buffer has that is asked for with so many. -/
def placesOf [Room] (cell : Cell) (count : Int) : Except Error Nat :=
  let bytes := cell.size * count
  if count < -0x8000000000000000 ∨ 0x8000000000000000 ≤ count then .error (.buffer .dimension)
  else if count < 0 then .error (.buffer .negative)
  else if 0x8000000000000000 ≤ bytes then .error (.buffer .bytes)
  else if Room.limit ≤ bytes then .error (.buffer (.memory count.toNat cell))
  else .ok count.toNat

/-- How many samples a buffer has. A length that is no whole number is none. -/
def bufferSize [Room] (length : Number) : Except Error Nat :=
  match length with
  | .whole n => placesOf .sample n
  | .real _ | .flag _ => .error .wrongKind

/-- The greatest whole number whose nearest float is `2 ^ 63`. -/
def rangeLimit : Nat := Nat.pow 2 63 + 1024

/-- The least whole number whose nearest float is `2 ^ 63`. -/
def rangeEnd : Nat := Nat.pow 2 63 - 512

/-- Checks that so many places can be numbered by floats. How many they are is known only as a float
here; where that is `2 ^ 63`, they count as none. -/
def requireRange [Room] (count : Int) : Except Error Unit :=
  if rangeLimit < count.natAbs then .error (.buffer .range)
  else if count < 0 ∨ rangeEnd ≤ count.natAbs then .ok ()
  else do let _ ← placesOf .float count

end Rendering
end Chiptune
