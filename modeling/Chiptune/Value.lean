import Chiptune.Number

/-!
# Values of a configuration

What a configuration file can say: nothing, a number, a text, bytes, a day or a moment, a list, a
set or a mapping. Mappings keep their entries in order. A list or mapping may hold itself, at any
depth: it is written once, and inside it a value says how far out it is meant.
-/

namespace Chiptune

/-- A value of a configuration. -/
inductive Value where
  | null
  | number (n : Number)
  | text (s : String)
  /-- A text with halves of surrogate pairs in it. -/
  | brokenText (points : List Text.Point)
  | bytes (content : List UInt8)
  | date (day : Date)
  | moment (time : Moment)
  | list (items : List Value)
  | set (members : List Value)
  | mapping (entries : List (Value × Value))
  /-- The list or mapping in which this stands, or the one so many levels further out. -/
  | enclosing (levels : Nat)
  deriving Repr

namespace Value

/-- The value that a text of code points is. -/
def ofPoints (points : List Text.Point) : Value :=
  match Text.characters? points with
  | some content => text (String.ofList content)
  | none => brokenText points

/-- Whether a value says anything: nothing, zero, and whatever is empty do not. What a value stands
in is not empty. -/
def isTruthy : Value → Bool
  | null => false
  | number n => !n.isZero
  | text s => s != ""
  | bytes content => !content.isEmpty
  | list items => !items.isEmpty
  | set members => !members.isEmpty
  | mapping entries => !entries.isEmpty
  | brokenText _ | date _ | moment _ | enclosing _ => true

/-- The number that a value is. -/
def toNumber : Value → Except Error Number
  | number n => .ok n
  | _ => .error .wrongKind

/-- The entry of a mapping under a text. -/
def entryNamed? (key : String) : List (Value × Value) → Option Value
  | [] => none
  | (text name, value) :: rest => if name = key then some value else entryNamed? key rest
  | _ :: rest => entryNamed? key rest

/-- What a value is where it stands in another one. -/
def inside (outer : Value) : Value → Value
  | enclosing 0 => outer
  | value => value

/-- The entry of a value that ought to be a mapping, under a text. A value that says nothing has
no entries, and any other value has no such part. -/
def lookUp (key : String) (value : Value) : Except Error (Option Value) :=
  if value.isTruthy then
    match value with
    | mapping entries => .ok ((entryNamed? key entries).map (inside value))
    | _ => .error .noSuchPart
  else
    .ok none

end Value

end Chiptune
