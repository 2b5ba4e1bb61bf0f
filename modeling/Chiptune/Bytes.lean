import Chiptune.Error

/-!
# Numbers as bytes

Binary files hold whole numbers in fields of a fixed width, the least or the greatest byte first.
A number that does not fit its field is refused. What was written before a refusal stays written.
-/

namespace Chiptune

/-- The bytes of a file as far as they got, and the failure that ended the writing, if one did. -/
structure Written where
  bytes : List UInt8
  failure? : Option Error := none

namespace Bytes

/-- The low bytes of a number, the least one first. -/
def littleEndian : Nat → Nat → List UInt8
  | 0, _ => []
  | width + 1, n => n.toUInt8 :: littleEndian width (n / 256)

/-- The low bytes of a number, the greatest one first. -/
def bigEndian (width n : Nat) : List UInt8 := (littleEndian width n).reverse

/-- A field of four bytes, the least one first. -/
def long (n : Nat) : Except Error (List UInt8) :=
  if n < 0x100000000 then .ok (littleEndian 4 n)
  else if n < 0x10000000000000000 then .error (.field .long)
  else .error (.field .argument)

/-- A field of two bytes, the least one first. -/
def short (n : Nat) : Except Error (List UInt8) :=
  if n < 0x10000 then .ok (littleEndian 2 n)
  else if n < 0x8000000000000000 then .error (.field .short)
  else .error (.field .argument)

/-- A signed field of two bytes, the greatest one first, for a number that is not negative. -/
def signedShort (n : Nat) : Except Error (List UInt8) :=
  if n < 0x8000 then .ok (bigEndian 2 n)
  else if n < 0x8000000000000000 then .error (.field .signedShort)
  else .error (.field .argument)

/-- The bytes of an ASCII text. -/
def ascii (text : String) : List UInt8 := text.toList.map fun c => c.toNat.toUInt8

end Bytes

end Chiptune
