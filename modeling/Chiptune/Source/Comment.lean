/-!
# Comments

A comment runs from `/*` to the next `*/` behind it, over any number of lines, or to the end of
the source where no `*/` follows. What stands before and behind it is joined up, and not looked at
again: two pieces may well form a new `/*`, which then stays.
-/

namespace Chiptune
namespace Source

mutual

/-- The rest of a source without its comments. -/
def outsideComment : List Char → List Char
  | '/' :: '*' :: rest => insideComment rest
  | c :: rest => c :: outsideComment rest
  | [] => []

/-- The rest of a source without its comments, from inside a comment on. -/
def insideComment : List Char → List Char
  | '*' :: '/' :: rest => outsideComment rest
  | _ :: rest => insideComment rest
  | [] => []

end

/-- Removes the comments of a source. -/
def stripComments (text : List Char) : List Char := outsideComment text

end Source
end Chiptune
