/-!
# Latin-1

One byte for each of the first 256 code points, and nothing else.
-/

namespace Chiptune
namespace Text
namespace Latin

/-- The first run of characters that have no byte: where it starts, and the characters. -/
structure Fault where
  position : Nat
  characters : List Char
  deriving Repr

/-- Whether a character has a byte. -/
def isEncodable (c : Char) : Bool := c.toNat < 0x100

/-- The bytes of a text, each holding the number of its character. -/
def encode (text : String) : Except Fault (List UInt8) :=
  let content := text.toList
  match content.dropWhile isEncodable with
  | [] => .ok (content.map fun c => c.toNat.toUInt8)
  | rest =>
    .error ⟨(content.takeWhile isEncodable).length, rest.takeWhile fun c => !isEncodable c⟩

end Latin
end Text
end Chiptune
