import Chiptune.Text.Digit

/-!
# Sections

A colon starts a channel. The word characters right behind it are the name of the channel, and all
that follows up to the next colon is its body. What stands before the first colon is the header.
-/

namespace Chiptune
namespace Source

/-- The text of one channel. -/
structure Section where
  name : List Char
  body : List Char
  deriving DecidableEq, Repr

/-- Cuts a text at its colons: what stands before the first one, and the pieces behind each. -/
def cutAtColons : List Char → List Char × List (List Char)
  | [] => ([], [])
  | c :: rest =>
    let (piece, later) := cutAtColons rest
    if c = ':' then ([], piece :: later) else (c :: piece, later)

/-- The text before the first channel. -/
def header (text : List Char) : List Char := (cutAtColons text).1

/-- The section that a piece of text behind a colon holds. -/
def Section.ofPiece (piece : List Char) : Section :=
  ⟨piece.takeWhile Text.isWord, piece.dropWhile Text.isWord⟩

/-- The channels of a source without comments, in order. -/
def sections (text : List Char) : List Section := (cutAtColons text).2.map .ofPiece

/-- A text cut at its colons is put together again with a colon before each piece. -/
theorem cutAtColons_join (text : List Char) :
    (cutAtColons text).1 ++ (cutAtColons text).2.flatMap (':' :: ·) = text := by
  induction text with
  | nil => rfl
  | cons c rest ih =>
    by_cases h : c = ':'
    · simp [cutAtColons, h, ih]
    · simp [cutAtColons, h, ih]

end Source
end Chiptune
