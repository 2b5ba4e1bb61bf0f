import Chiptune.Yaml.Cursor
import Chiptune.Yaml.Token

/-!
# Directives, anchors and tags

What stands in front of a document or a node and says how to read it.
-/

namespace Chiptune
namespace Yaml
namespace Property

open Scan

/-- Whether a character is a digit in base sixteen. -/
def isHexDigit (c : Char) : Bool :=
  c.isDigit || ('a' ≤ c && c ≤ 'f') || ('A' ≤ c && c ≤ 'F')

/-- The number that digits in base sixteen spell. -/
def hexValue (digits : List Char) : Nat :=
  digits.foldl (fun n c => 16 * n + (Decimal.baseDigit? 16 c).getD 0) 0

/-- Reads exactly so many digits in base sixteen. -/
def hexDigits (count : Nat) : Scan Nat := do
  let digits := ((← get).rest.take count).takeWhile isHexDigit
  let _ ← peekAt? digits.length
  require (digits.length == count)
  return hexValue (← take count)

/-- Whether a character may stand in the address of a tag as it is. -/
def isAddressCharacter (c : Char) : Bool :=
  isNameCharacter c || ";/?:@&=+$,.!~*'()[]".toList.contains c

/-- Reads the bytes that percent signs spell. -/
def escapedBytes : Nat → Scan (List UInt8)
  | 0 => return []
  | fuel + 1 => do
    if (← get).isAt '%' then
      skip 1
      let byte ← hexDigits 2
      return byte.toUInt8 :: (← escapedBytes fuel)
    else
      return []

/-- Reads pieces of an address, as they are or spelled in bytes. -/
def addressPieces : Nat → Scan (List Char)
  | 0 => return []
  | fuel + 1 => do
    if (← get).isAt '%' then
      match Text.Utf8.decode (← escapedBytes fuel) with
      | .ok text => return text ++ (← addressPieces fuel)
      | .error _ => fail
    else
      let piece ← takeWhile isAddressCharacter
      if piece.isEmpty then return [] else return piece ++ (← addressPieces fuel)

/-- Reads the address of a tag, which has at least one character. -/
def address : Scan String := do
  let start ← get
  let text ← addressPieces (start.left + 1)
  require (start.index < (← get).index)
  return String.ofList text

/-- Reads the handle of a tag: an exclamation mark, or a name between two. -/
def handle : Scan String := do
  require ((← get).isAt '!')
  if (← peekAt? 1) == some ' ' then
    return String.ofList (← take 1)
  else
    let name := ((← get).rest.drop 1).takeWhile isNameCharacter
    require ((← peekAt? (name.length + 1)) == some '!')
    return String.ofList (← take (name.length + 2))

/-- Reads a tag: an address in angle brackets, an exclamation mark alone, or a handle with the rest
of the address. -/
def tag : Scan Token := do
  let second ← peekAt? 1
  let token ←
    if second == some '<' then do
      skip 2
      let suffix ← address
      require ((← get).isAt '>')
      skip 1
      pure (Token.tag none suffix)
    else if endsWord second then do
      skip 1
      pure (Token.tag none "!")
    else do
      let ahead := ((← get).rest.drop 1).takeWhile fun c => c != '!' && !endsMark (some c)
      let isNamed := (← peekAt? (ahead.length + 1)) == some '!'
      let first ← if isNamed then handle else String.ofList <$> take 1
      pure (Token.tag (some first) (← address))
  require (endsMark (← peek?))
  return token

/-- Reads the name of an anchor behind its mark. -/
def name : Scan String := do
  skip 1
  let text ← takeWhile isNameCharacter
  require !text.isEmpty
  let behind ← peek?
  require (endsWord behind || behind.any "?:,]\x7d%@`".toList.contains)
  return String.ofList text

/-- Reads a number of a version. -/
def versionNumber : Scan Int := do
  let digits ← takeWhile Char.isDigit
  require !digits.isEmpty
  match Decimal.read digits with
  | .ok n => return n
  | .error fault => throw (.notInteger 10 (Text.pointsOf digits) fault)

/-- Reads a directive. One of an unknown name is passed over. -/
def directive : Scan Token := do
  skip 1
  let text ← takeWhile isNameCharacter
  require (!text.isEmpty && endsMark (← peek?))
  let content ← match String.ofList text with
    | "YAML" => do
      skipSpaces
      let major ← versionNumber
      require ((← get).isAt '.')
      skip 1
      let _ ← versionNumber
      require (endsMark (← peek?))
      pure (Directive.version major)
    | "TAG" => do
      skipSpaces
      let first ← handle
      require ((← get).isAt ' ')
      skipSpaces
      let start ← address
      require (endsMark (← peek?))
      pure (Directive.tag first start)
    | _ => do
      let _ ← takeWhile fun c => !isBreak c
      pure Directive.unknown
  endOfLine
  return .directive content

end Property
end Yaml
end Chiptune
