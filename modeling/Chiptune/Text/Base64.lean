/-!
# Base 64

Bytes written in letters, digits and two marks, four characters for three bytes. Characters of no
meaning are passed over; a pad ends the text where it fills a group up.
-/

namespace Chiptune
namespace Text
namespace Base64

/-- The six bits that a character stands for. -/
def sextet? (c : Char) : Option Nat :=
  if 'A' ≤ c ∧ c ≤ 'Z' then some (c.toNat - 'A'.toNat)
  else if 'a' ≤ c ∧ c ≤ 'z' then some (c.toNat - 'a'.toNat + 26)
  else if '0' ≤ c ∧ c ≤ '9' then some (c.toNat - '0'.toNat + 52)
  else if c = '+' then some 62
  else if c = '/' then some 63
  else none

/-- The bytes of a group, by its first, second, third and fourth character. The bits that fill no
byte are dropped. -/
def groupBytes (group : List Nat) : List UInt8 :=
  match group with
  | [a, b] => [(a * 4 + b / 16).toUInt8]
  | [a, b, c] => [(a * 4 + b / 16).toUInt8, (b % 16 * 16 + c / 4).toUInt8]
  | [a, b, c, d] =>
    [(a * 4 + b / 16).toUInt8, (b % 16 * 16 + c / 4).toUInt8, (c % 4 * 64 + d).toUInt8]
  | _ => []

/-- Reads bytes. `group` holds the sextets of a group that is not full, and `pads` counts the pads
right behind them. A text that ends inside a group is refused. -/
def decodeFrom (group : List Nat) (pads : Nat) : List Char → Option (List UInt8)
  | [] => if group.isEmpty then some [] else none
  | c :: rest =>
    if c = '=' then
      if 2 ≤ group.length then
        if 4 ≤ group.length + pads + 1 then some (groupBytes group)
        else decodeFrom group (pads + 1) rest
      else
        decodeFrom group pads rest
    else
      match sextet? c with
      | none => decodeFrom group pads rest
      | some n =>
        let grown := group ++ [n]
        if grown.length = 4 then return groupBytes grown ++ (← decodeFrom [] 0 rest)
        else decodeFrom grown 0 rest

/-- The bytes that a text stands for. -/
def decode (text : List Char) : Option (List UInt8) := decodeFrom [] 0 text

end Base64
end Text
end Chiptune
