/-!
# UTF-8

Reading bytes as text. Where the bytes are no text, the report names the run of bytes that
spoils it and why: the byte that starts no character, the start of a character that goes on
wrongly, or the start of a character at the end of the data.
-/

namespace Chiptune
namespace Text
namespace Utf8

/-- Why a run of bytes is no text. -/
inductive Flaw where
  | startByte
  | continuationByte
  | endOfData
  deriving DecidableEq, Repr

/-- The first run of bytes that spoils a text: where it starts, and the bytes themselves. -/
structure Fault where
  position : Nat
  bytes : List UInt8
  flaw : Flaw
  deriving Repr

/-- The continuation bytes that a first byte asks for: how many there are, and the least and
the greatest value of the first of them. Overlong forms, surrogates and numbers past the last
code point are ruled out here. -/
def continuations? (b : UInt8) : Option (Nat × UInt8 × UInt8) :=
  if b ≤ 0x7f then some (0, 0x80, 0xbf)
  else if 0xc2 ≤ b && b ≤ 0xdf then some (1, 0x80, 0xbf)
  else if b == 0xe0 then some (2, 0xa0, 0xbf)
  else if b == 0xed then some (2, 0x80, 0x9f)
  else if 0xe1 ≤ b && b ≤ 0xef then some (2, 0x80, 0xbf)
  else if b == 0xf0 then some (3, 0x90, 0xbf)
  else if 0xf1 ≤ b && b ≤ 0xf3 then some (3, 0x80, 0xbf)
  else if b == 0xf4 then some (3, 0x80, 0x8f)
  else none

/-- The payload of a first byte that asks for so many continuation bytes. -/
def payload (b : UInt8) : Nat → Nat
  | 0 => b.toNat
  | 1 => b.toNat % 0x20
  | 2 => b.toNat % 0x10
  | _ => b.toNat % 0x08

/-- A character under construction: the bytes it has so far, how many are missing, the bounds
on the next one and the code point so far. -/
structure Pending where
  seen : List UInt8
  missing : Nat
  low : UInt8
  high : UInt8
  value : Nat

/-- Reads characters to the end of the bytes; `position` counts the bytes read. -/
def decodeFrom (position : Nat) : Option Pending → List UInt8 → Except Fault (List Char)
  | none, [] => .ok []
  | some p, [] => .error ⟨position - p.seen.length, p.seen, .endOfData⟩
  | none, b :: rest =>
    match continuations? b with
    | none => .error ⟨position, [b], .startByte⟩
    | some (0, _, _) => do
      let later ← decodeFrom (position + 1) none rest
      return Char.ofNat b.toNat :: later
    | some (n + 1, low, high) =>
      decodeFrom (position + 1) (some ⟨[b], n + 1, low, high, payload b (n + 1)⟩) rest
  | some p, b :: rest =>
    if p.low ≤ b && b ≤ p.high then
      let value := 0x40 * p.value + b.toNat % 0x40
      if p.missing ≤ 1 then do
        let later ← decodeFrom (position + 1) none rest
        return Char.ofNat value :: later
      else
        decodeFrom (position + 1) (some ⟨p.seen ++ [b], p.missing - 1, 0x80, 0xbf, value⟩) rest
    else
      .error ⟨position - p.seen.length, p.seen, .continuationByte⟩

/-- The text that bytes hold. -/
def decode (bytes : List UInt8) : Except Fault (List Char) := decodeFrom 0 none bytes

/-- Whether bytes are two thirds of half of a surrogate pair. -/
def isHalfBegun : List UInt8 → Bool
  | [first, second] => first == 0xed && 0xa0 ≤ second && second ≤ 0xbf
  | _ => false

/-- The text that bytes hold which may go on, and the bytes at their end on which judgement waits:
those of a character that is not complete, and those of half of a surrogate pair, which is not
complete either. -/
def decodeSome (bytes : List UInt8) : Except Fault (List Char × List UInt8) :=
  match decode bytes with
  | .ok text => .ok (text, [])
  | .error fault =>
    let cut := bytes.drop fault.position
    if fault.flaw = .endOfData ∨ isHalfBegun cut then
      (decode (bytes.take fault.position)).map fun text => (text, cut)
    else
      .error fault

end Utf8
end Text
end Chiptune
