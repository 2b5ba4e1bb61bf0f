import Chiptune.Error

/-!
# A place in a configuration text

The text that is left, and how much of it has been read: in characters, in lines, and in characters
of the present line. Indentation is structure, so the column counts.

A file that is spoilt somewhere is still read up to there. A reader always knows the character that
comes next, so it stops as soon as it would have to look at the spoilt place.
-/

namespace Chiptune
namespace Yaml

/-- The characters that end a line. Carriage returns are gone by the time a file is read. -/
def isBreak (c : Char) : Bool := c == '\n' || c == '\u0085' || c == '\u2028' || c == '\u2029'

/-- Whether a character may occur in a file. -/
def isAllowed (c : Char) : Bool :=
  let n := c.toNat
  n == 0x9 || n == 0xa || n == 0xd || (0x20 ≤ n && n ≤ 0x7e) || n == 0x85 ||
    (0xa0 ≤ n && n ≤ 0xfffd) || 0x10000 ≤ n

/-- Whether a line ends here: at a break, or at the end of the text. -/
def endsLine : Option Char → Bool
  | none => true
  | some c => isBreak c

/-- Whether a mark may end here: at a space, or where a line ends. -/
def endsMark : Option Char → Bool
  | some ' ' => true
  | c => endsLine c

/-- Whether a word may end here: at a space or tab, or where a line ends. -/
def endsWord : Option Char → Bool
  | some '\t' => true
  | c => endsMark c

/-- The letters, digits and marks of names. -/
def isNameCharacter (c : Char) : Bool := c.isAlphanum || c == '-' || c == '_'

/-- A place in a text. -/
structure Cursor where
  rest : List Char
  /-- What spoils the text behind its last character, if anything does. -/
  failure? : Option Error := none
  index : Nat := 0
  line : Nat := 0
  column : Nat := 0
  /-- How many characters the text has. -/
  size : Nat := index + rest.length

namespace Cursor

/-- How many characters are left. -/
def left (cursor : Cursor) : Nat := cursor.size - cursor.index

/-- The next character. -/
def peek? (cursor : Cursor) : Option Char := cursor.rest.head?

/-- The character some places ahead. None is there behind the end of a text. -/
def peekAt? (cursor : Cursor) (distance : Nat) : Except Error (Option Char) :=
  match cursor.rest[distance]?, cursor.failure? with
  | none, some failure => .error failure
  | c?, _ => .ok c?

/-- Whether the next character is the given one. -/
def isAt (cursor : Cursor) (c : Char) : Bool := cursor.peek? == some c

/-- The place behind the next character. A byte-order mark takes up no column. -/
def next (cursor : Cursor) : Cursor :=
  match cursor.rest with
  | [] => cursor
  | c :: rest =>
    let width := if c == '\ufeff' then 0 else 1
    let moved := { cursor with rest, index := cursor.index + 1 }
    if isBreak c then { moved with line := cursor.line + 1, column := 0 }
    else { moved with column := cursor.column + width }

/-- The place behind some characters. -/
def behind (cursor : Cursor) : Nat → Cursor
  | 0 => cursor
  | n + 1 => cursor.next.behind n

/-- Reads some characters. The one behind them has to be known. -/
def advance (cursor : Cursor) (count : Nat) : Except Error Cursor := do
  let _ ← cursor.peekAt? count
  return cursor.behind count

/-- Whether a line of three equal marks starts or ends a document here. -/
def isSeparator (cursor : Cursor) (marks : List Char) : Except Error Bool := do
  let _ ← cursor.peekAt? 2
  if marks.any fun mark => cursor.rest.take 3 == [mark, mark, mark] then
    return endsWord (← cursor.peekAt? 3)
  else
    return false

end Cursor

/-- Work at a place of a text. -/
abbrev Scan := StateT Cursor (Except Error)

namespace Scan

/-- Characters that form no token. -/
def fail {α : Type} : Scan α := throw (.yaml .token)

/-- Fails unless a condition holds. -/
def require (condition : Bool) : Scan Unit := if condition then pure () else fail

/-- Reads some characters and gives them. -/
def take (count : Nat) : Scan (List Char) := do
  let cursor ← get
  set (← cursor.advance count)
  return cursor.rest.take count

/-- Reads the characters that satisfy a condition and gives them. -/
def takeWhile (condition : Char → Bool) : Scan (List Char) := do
  take ((← get).rest.takeWhile condition).length

/-- Reads some characters. -/
def skip (count : Nat) : Scan Unit := do set (← (← get).advance count)

/-- The next character. -/
def peek? : Scan (Option Char) := return (← get).peek?

/-- The character some places ahead. -/
def peekAt? (distance : Nat) : Scan (Option Char) := do (← get).peekAt? distance

/-- Whether a document starts or ends here, wherever that is in the line. -/
def isAnySeparator : Scan Bool := do (← get).isSeparator ['-', '.']

/-- Reads spaces. -/
def skipSpaces : Scan Unit := do let _ ← takeWhile (· == ' ')

/-- Reads a comment up to the end of its line, if there is one. -/
def skipComment : Scan Unit := do
  if (← get).isAt '#' then
    let _ ← takeWhile fun c => !isBreak c

/-- Reads a line break, if there is one, and gives what it stands for. -/
def lineBreak : Scan (List Char) := do
  match ← peek? with
  | some c =>
    if c == '\n' || c == '\u0085' then
      skip 1
      return ['\n']
    else if isBreak c then
      skip 1
      return [c]
    else
      return []
  | none => return []

/-- Reads the rest of a line that may hold nothing but a comment. -/
def endOfLine : Scan Unit := do
  skipSpaces
  skipComment
  require (endsLine (← peek?))
  let _ ← lineBreak

end Scan
end Yaml
end Chiptune
