import Chiptune.Instruction.Pattern
import Chiptune.Stretch

/-!
# The schedule of a line

The kinds of a table are searched for one after the other, each over the whole line. What one of
them finds is accepted if none of its characters has been taken yet, and takes them all, so the
order of the table settles text that could be read in two ways. The accepted instructions are then
put in the order in which they stand in the line. Text that no kind takes is ignored.
-/

namespace Chiptune

/-- An instruction and where it stands in its line, in characters. -/
structure Instruction where
  offset : Nat
  kind : Kind
  argument : String
  deriving DecidableEq, Repr

/-- An instruction with the number of characters it takes up. -/
structure Occurrence extends Instruction where
  length : Nat
  deriving DecidableEq, Repr

namespace Occurrence

/-- The offset behind the last character. -/
def stop (o : Occurrence) : Nat := o.offset + o.length

/-- Whether two occurrences share no character. -/
def clearOf (a b : Occurrence) : Bool := a.stop ≤ b.offset || b.stop ≤ a.offset

end Occurrence

namespace Kind

/-- Every match of a kind in a text, from the left, none overlapping the one before. The first
`skip` characters belong to a match already found; `offset` counts the characters read. -/
def occurrencesFrom (kind : Kind) (offset : Nat) : Nat → List Char → List Occurrence
  | _, [] => []
  | skip + 1, _ :: rest => occurrencesFrom kind (offset + 1) skip rest
  | 0, c :: rest =>
    match kind.match? (c :: rest) with
    | none => occurrencesFrom kind (offset + 1) 0 rest
    | some m =>
      { offset, kind, argument := String.ofList m.argument, length := m.length } ::
        occurrencesFrom kind (offset + 1) (m.length - 1) rest

/-- Every match of a kind in a line, from the left. -/
def occurrences (kind : Kind) (line : List Char) : List Occurrence :=
  kind.occurrencesFrom 0 0 line

end Kind

/-- A line while it is searched: which of its characters have been taken, and what has taken
them, in the order of acceptance. -/
structure Claims where
  taken : Array Bool
  found : Array Occurrence

namespace Claims

/-- A line that has not been searched yet. -/
def start (line : List Char) : Claims := ⟨Array.replicate line.length false, #[]⟩

/-- Whether one of the characters of an occurrence has been taken. -/
def meets (claims : Claims) (o : Occurrence) : Bool :=
  (claims.taken.extract o.offset o.stop).any id

/-- Accepts an occurrence and takes its characters, unless one of them has been taken. -/
def accept (claims : Claims) (o : Occurrence) : Claims :=
  if claims.meets o then claims
  else
    { taken := changeStretch claims.taken o.offset o.length fun _ _ => true
      found := claims.found.push o }

/-- Goes through what the search for a kind finds, from the left. -/
def search (line : List Char) (claims : Claims) (kind : Kind) : Claims :=
  (kind.occurrences line).foldl accept claims

/-- A line that has been searched for every kind of a table, in the order of the table. -/
def ofTable (table : List Kind) (line : List Char) : Claims :=
  table.foldl (search line) (start line)

end Claims

namespace Schedule

/-- The occurrences accepted for a table, in the order of the table and then of the line. -/
def accepted (table : List Kind) (line : List Char) : List Occurrence :=
  (Claims.ofTable table line).found.toList

/-- The accepted instructions in the order of the line. -/
def ofAccepted (found : List Occurrence) : List Instruction :=
  (found.mergeSort fun a b => a.offset ≤ b.offset).map (·.toInstruction)

/-- The instructions of a line, in the order of the line. -/
def ofLine (table : List Kind) (line : List Char) : List Instruction :=
  ofAccepted (accepted table line)

end Schedule

end Chiptune
