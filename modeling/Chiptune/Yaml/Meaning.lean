import Chiptune.Text.Base64
import Chiptune.Text.LowerCase
import Chiptune.Yaml.Implicit

/-!
# What texts mean

A text with a tag is read as the tag says: as a number, a truth value, a day, a moment or bytes.
Underscores in numbers do not count. A number in base sixty is written in places with colons between
them.
-/

namespace Chiptune
namespace Yaml
namespace Meaning

open Text (Point)

/-- A node without a value. -/
def fail {α : Type} : Except Error α := .error (.yaml .value)

/-- A text without underscores. -/
def dropUnderscores (text : List Point) : List Point := text.filter fun p => !p.isChar '_'

/-- The sign of a number and the text behind it. A number has a first character. -/
def splitSign : List Point → Except Error (Bool × List Point)
  | [] => .error .emptyNumber
  | first :: rest =>
    if first.isChar '-' then .ok (true, rest)
    else if first.isChar '+' then .ok (false, rest)
    else .ok (false, first :: rest)

/-- The places of a number in base sixty. A number in another base is one piece. -/
def cutAtColons (text : List Point) : List Point × List (List Point) :=
  Implicit.cutAt (·.isChar ':') text

/-! ## Whole numbers -/

/-- A whole number in a base, or the refusal of its text. -/
def integerIn (base : Nat) (digits : List Point) : Except Error Int :=
  match Decimal.readBase base (Text.standIns digits) with
  | .ok n => .ok n
  | .error fault => .error (.notInteger base digits fault)

/-- Puts places of base sixty together. -/
def sexagesimal (places : List Int) : Int := places.foldl (fun n place => 60 * n + place) 0

/-- The whole number that a text spells without its sign. -/
def magnitude : List Point → Except Error Int
  | [] => .error .emptyNumber
  | [.character '0'] => .ok 0
  | .character '0' :: .character 'b' :: digits => integerIn 2 digits
  | .character '0' :: .character 'x' :: digits => integerIn 16 digits
  | .character '0' :: digits => integerIn 8 (.character '0' :: digits)
  | digits =>
    match cutAtColons digits with
    | (whole, []) => integerIn 10 whole
    | (first, places) => do return sexagesimal (← (first :: places).mapM (integerIn 10))

/-- The whole number that a text spells. -/
def integer (text : List Point) : Except Error Int := do
  let (negative, body) ← splitSign (dropUnderscores text)
  let n ← magnitude body
  return if negative then -n else n

/-! ## Real numbers -/

/-- The float that a text spells, or the refusal of the text. -/
def float (digits : List Point) : Except Error Float :=
  match Decimal.readReal? (Text.standIns digits) with
  | some x => .ok x
  | none => .error (.notReal digits)

/-- Adds up places of base sixty from the last one on. What a place is worth is a whole number, and
has to have a float near it even where the place holds nothing. -/
def addPlaces (unit : Nat) (total : Float) : List Float → Except Error Float
  | [] => .ok total
  | place :: rest => do addPlaces (unit * 60) (total + place * (← Binary64.ofInt unit)) rest

/-- The real number that a text in lower case spells without its sign. -/
def realMagnitude (body : List Point) : Except Error Float :=
  if body = Text.points ".inf" then .ok Binary64.infinity
  else if body = Text.points ".nan" then .ok Binary64.nan
  else
    match cutAtColons body with
    | (whole, []) => float whole
    | (first, places) => do addPlaces 1 0.0 (← (first :: places).mapM float).reverse

/-- The sign of a real number and the text behind it, in lower case. -/
def realParts (text : List Point) : Except Error (Bool × List Point) :=
  splitSign (Text.lower (dropUnderscores text))

/-- The real number that a text spells. -/
def real (text : List Point) : Except Error Float := do
  let (negative, body) ← realParts text
  return Decimal.negateIf negative (← realMagnitude body)

/-- Whether a text names the not-a-number. All that name it mean the same one. -/
def isNaN (text : List Point) : Bool :=
  match realParts text with
  | .ok (_, body) => body = Text.points ".nan"
  | .error _ => false

/-! ## Other values -/

/-- The words for the truth values. -/
def flagWords : List (String × Bool) :=
  [("yes", true), ("no", false), ("true", true), ("false", false), ("on", true), ("off", false)]

/-- The truth value that a text spells, in letters of either case. -/
def flag (text : List Point) : Except Error Bool :=
  let word := Text.lower text
  match flagWords.find? fun entry => Text.points entry.1 == word with
  | some (_, value) => .ok value
  | none => .error (.notFlag word)

/-- The bytes that a text spells in ASCII. -/
def binary (text : List Point) : Except Error (List UInt8) :=
  match Text.characters? text with
  | none => fail
  | some content =>
    if content.all fun c => c.toNat < 0x80 then
      match Text.Base64.decode content with
      | some bytes => .ok bytes
      | none => fail
    else
      fail

/-- The value of a text with a tag. A text is no collection, and a mark is no value. -/
def value (tag : Tag) (text : List Point) : Except Error Value :=
  match tag with
  | .null => .ok .null
  | .flag => do return .number (.flag (← flag text))
  | .integer => do return .number (.whole (← integer text))
  | .real => do return .number (.real (← real text))
  | .text => .ok (.ofPoints text)
  | .binary => do return .bytes (← binary text)
  | .timestamp => Timestamp.value (Text.standIns text)
  | .sequence | .mapping | .pairs | .set | .merge | .value | .unknown => fail

end Meaning
end Yaml
end Chiptune
