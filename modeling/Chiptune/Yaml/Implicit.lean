import Chiptune.Text.Lines
import Chiptune.Yaml.Timestamp

/-!
# What plain texts mean

A plain text may be a truth value, a number, a day, a moment or nothing at all; which one shows in
its spelling. Whole numbers are written in base two, eight, ten, sixteen or sixty, real numbers with
a point in base ten or sixty. A line feed at the end of the spelling does no harm.
-/

namespace Chiptune
namespace Yaml

/-- The kinds of value that a node can be tagged as. -/
inductive Tag where
  | null
  | flag
  | integer
  | real
  | text
  | binary
  | timestamp
  | sequence
  | mapping
  /-- A sequence of mappings that have one entry each. -/
  | pairs
  /-- A mapping whose keys alone count. -/
  | set
  /-- A key under which other mappings are merged in. -/
  | merge
  /-- A key under which a mapping keeps its own value. -/
  | value
  | unknown
  deriving DecidableEq, Repr

namespace Tag

/-- The address in front of the names of the standard tags. -/
def standard : String := "tag:yaml.org,2002:"

/-- The tag with an address. -/
def ofAddress (address : String) : Tag :=
  let names : List (String × Tag) :=
    [("null", null), ("bool", flag), ("int", integer), ("float", real), ("str", text),
      ("binary", binary), ("timestamp", timestamp), ("seq", sequence), ("map", mapping),
      ("omap", pairs), ("pairs", pairs), ("set", set), ("merge", merge), ("value", value)]
  ((names.find? fun entry => standard ++ entry.1 == address).map (·.2)).getD unknown

end Tag

namespace Implicit

/-- Whether a character is one of a few, or an underscore. -/
def isOneOf (digits : List Char) (c : Char) : Bool := digits.contains c || c == '_'

/-- The digits of base ten in ASCII. -/
def decimal : List Char := "0123456789".toList

/-- Whether a text has at least one character and all of them satisfy a condition. -/
def isRun (condition : Char → Bool) (text : List Char) : Bool :=
  !text.isEmpty && text.all condition

/-- Whether a text starts with a digit of some kind and goes on in digits and underscores. -/
def isNumeral (starts : Char → Bool) : List Char → Bool
  | [] => false
  | c :: rest => starts c && rest.all (isOneOf decimal)

/-- Drops a sign. -/
def dropSign : List Char → List Char
  | '+' :: rest => rest
  | '-' :: rest => rest
  | text => text

/-- Cuts a text at its marks. -/
def cutAt {α : Type} (isMark : α → Bool) : List α → List α × List (List α)
  | [] => ([], [])
  | c :: rest =>
    let (piece, later) := cutAt isMark rest
    if isMark c then ([], piece :: later) else (c :: piece, later)

/-- Whether a text is a place in a number of base sixty: one digit, or two below sixty. -/
def isSexagesimal : List Char → Bool
  | [c] => c.isDigit
  | [c, d] => '0' ≤ c && c ≤ '5' && d.isDigit
  | _ => false

/-- Whether a text spells a whole number. -/
def isInteger (text : List Char) : Bool :=
  match dropSign text with
  | ['0'] => true
  | '0' :: 'b' :: digits => isRun (isOneOf ['0', '1']) digits
  | '0' :: 'x' :: digits =>
    isRun (fun c => isOneOf decimal c || ('a' ≤ c && c ≤ 'f') || ('A' ≤ c && c ≤ 'F')) digits
  | '0' :: digits => isRun (isOneOf "01234567".toList) digits
  | body =>
    let starts := isNumeral fun c => '1' ≤ c && c ≤ '9'
    match cutAt (· == ':') body with
    | (whole, []) => starts whole
    | (first, places) =>
      (first.head?.any fun c => '1' ≤ c && c ≤ '9') && starts first && places.all isSexagesimal

/-- Whether a text is empty or an exponent with a sign. -/
def isExponent : List Char → Bool
  | [] => true
  | mark :: sign :: digits =>
    (mark == 'e' || mark == 'E') && (sign == '+' || sign == '-') && isRun Char.isDigit digits
  | _ => false

/-- Whether a text is a fraction behind its point: digits and underscores, and perhaps an
exponent. -/
def isFraction (text : List Char) : Bool := isExponent (text.dropWhile (isOneOf decimal))

/-- Whether a text spells a real number. Without digits in front of the point there is no sign. -/
def isReal (text : List Char) : Bool :=
  let body := dropSign text
  let whole := body.takeWhile (· != '.')
  match body.dropWhile (· != '.') with
  | [] => false
  | _ :: fraction =>
    let word := String.ofList fraction
    if whole.isEmpty then
      ["inf", "Inf", "INF"].contains word ||
        (body.length == text.length &&
          (["nan", "NaN", "NAN"].contains word ||
            (fraction.head?.any Char.isDigit && isFraction fraction)))
    else
      match cutAt (· == ':') whole with
      | (digits, []) => isNumeral Char.isDigit digits && isFraction fraction
      | (first, places) =>
        isNumeral Char.isDigit first && places.all isSexagesimal && fraction.all (isOneOf decimal)

/-- The spellings of the truth values. -/
def flags : List String :=
  ["yes", "Yes", "YES", "no", "No", "NO", "true", "True", "TRUE", "false", "False", "FALSE",
    "on", "On", "ON", "off", "Off", "OFF"]

/-- The spellings of nothing. -/
def nulls : List String := ["", "~", "null", "Null", "NULL"]

/-- The spellings that are marks of the notation itself and stand for nothing. -/
def marks : List String := ["!", "&", "*"]

/-- What a spelling is. -/
def tagOf (spelling : List Char) : Tag :=
  let word := String.ofList spelling
  if flags.contains word then .flag
  else if isReal spelling then .real
  else if isInteger spelling then .integer
  else if word == "<<" then .merge
  else if nulls.contains word then .null
  else if Timestamp.isPlain spelling then .timestamp
  else if word == "=" then .value
  else if marks.contains word then .unknown
  else .text

/-- What a plain text is. A line feed alone is a text. -/
def tag (text : List Text.Point) : Tag :=
  match Text.characters? text with
  | none => .text
  | some ['\n'] => .text
  | some content => tagOf (Text.dropFinalNewline content)

end Implicit
end Yaml
end Chiptune
