import Chiptune.Text.Point
import Chiptune.Text.Unprintable

/-!
# Quoted text

How a message shows a text: between quotes, with every character that has no picture of its own
written by its number.
-/

namespace Chiptune
namespace Text

/-- A number in lower-case hexadecimal, filled with zeros to a width. -/
def hexadecimal (width value : Nat) : List Char :=
  let digits := Nat.toDigits 16 value
  List.replicate (width - digits.length) '0' ++ digits

/-- The quote around a text: the double one only where the text holds a single quote and no
double one. -/
def quoteFor (text : List Char) : Char :=
  if text.contains '\'' && !text.contains '"' then '"' else '\''

/-- One character of a quoted text. -/
def escape (quote c : Char) : List Char :=
  if c = quote ∨ c = '\\' then ['\\', c]
  else if c = '\n' then ['\\', 'n']
  else if c = '\r' then ['\\', 'r']
  else if c = '\t' then ['\\', 't']
  else if isUnprintable c then
    if c.toNat < 0x100 then '\\' :: 'x' :: hexadecimal 2 c.toNat
    else if c.toNat < 0x10000 then '\\' :: 'u' :: hexadecimal 4 c.toNat
    else '\\' :: 'U' :: hexadecimal 8 c.toNat
  else [c]

/-- One code point of a quoted text. -/
def escapePoint (quote : Char) : Point → List Char
  | .character c => escape quote c
  | .half code => '\\' :: 'u' :: hexadecimal 4 code.toNat

/-- A text of code points between quotes. -/
def quotedPoints (text : List Point) : String :=
  let quote := quoteFor (standIns text)
  String.ofList (quote :: text.flatMap (escapePoint quote) ++ [quote])

/-- A text between quotes. -/
def quoted (text : String) : String := quotedPoints (points text)

/-- At most the first characters of a text between quotes, for a message of bounded length. -/
def quotedUpTo (limit : Nat) (text : List Point) : String :=
  String.ofList ((quotedPoints text).toList.take limit)

end Text
end Chiptune
