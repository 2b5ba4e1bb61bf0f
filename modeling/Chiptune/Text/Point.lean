/-!
# Code points

A text from outside can hold halves of surrogate pairs, which are code points and no characters.
Where such texts are told apart and shown, a text is a list of code points; everywhere else it is
a list of characters.
-/

namespace Chiptune
namespace Text

/-- A code point. -/
inductive Point where
  | character (c : Char)
  /-- One half of a surrogate pair. -/
  | half (code : UInt16)
  deriving DecidableEq, Repr

namespace Point

/-- The character that a code point is. -/
def char? : Point → Option Char
  | character c => some c
  | half _ => none

/-- A character in the place of a code point. In the place of a half stands one that has no part in
any number or word. -/
def standIn : Point → Char
  | character c => c
  | half _ => '\x00'

/-- Whether a code point is the given character. -/
def isChar (c : Char) (point : Point) : Bool := point == character c

end Point

/-- The code points of characters. -/
def pointsOf (text : List Char) : List Point := text.map .character

/-- The code points of a text. -/
def points (text : String) : List Point := pointsOf text.toList

/-- The characters that code points are, where all of them are characters. -/
def characters? (text : List Point) : Option (List Char) := text.mapM Point.char?

/-- Characters in the places of code points. -/
def standIns (text : List Point) : List Char := text.map Point.standIn

theorem characters?_pointsOf (text : List Char) : characters? (pointsOf text) = some text := by
  induction text with
  | nil => rfl
  | cons c rest ih =>
    simp only [characters?, pointsOf, List.map_cons, List.mapM_cons] at ih ⊢
    simp [ih, Point.char?]

theorem standIns_pointsOf (text : List Char) : standIns (pointsOf text) = text := by
  induction text with
  | nil => rfl
  | cons c rest ih =>
    simp only [standIns, pointsOf, List.map_cons] at ih ⊢
    simp [ih, Point.standIn]

end Text
end Chiptune
