import Chiptune.Error
import Chiptune.Text.Lines

/-!
# Note names

A note is spelled by a letter from `A` to `G` in either case, or `R` for a rest, and at most one
accidental. The twelve notes of an octave are counted from `C`; spelled by index they have sharps
and no flats. An accidental may lead out of the octave: `C-` has index -1 and `B#` index 12.
-/

namespace Chiptune

/-- The seven natural notes. -/
inductive Letter where
  | c
  | d
  | e
  | f
  | g
  | a
  | b
  deriving DecidableEq, Repr

namespace Letter

/-- The letter that a character spells. -/
def ofChar? : Char → Option Letter
  | 'A' | 'a' => some a
  | 'B' | 'b' => some b
  | 'C' | 'c' => some c
  | 'D' | 'd' => some d
  | 'E' | 'e' => some e
  | 'F' | 'f' => some f
  | 'G' | 'g' => some g
  | _ => none

/-- The semitones from `C` up to the letter. -/
def index : Letter → Nat
  | c => 0
  | d => 2
  | e => 4
  | f => 5
  | g => 7
  | a => 9
  | b => 11

end Letter

/-- What stands behind the letter. -/
inductive Accidental where
  | natural
  | sharp
  | flat
  deriving DecidableEq, Repr

namespace Accidental

/-- The accidental that a character spells. -/
def ofChar? : Char → Option Accidental
  | '#' | '+' => some sharp
  | '-' => some flat
  | _ => none

/-- The semitones that an accidental adds. -/
def offset : Accidental → Int
  | natural => 0
  | sharp => 1
  | flat => -1

end Accidental

/-- What a note name spells. The accidental of a rest says nothing. -/
inductive Spelling where
  | rest (accidental : Accidental)
  | tone (letter : Letter) (accidental : Accidental)
  deriving DecidableEq, Repr

namespace Spelling

/-- The spelling that starts with a character, given what stands behind it. -/
def ofHead? (head : Char) (accidental : Accidental) : Option Spelling :=
  if head = 'R' then some (rest accidental)
  else (Letter.ofChar? head).map fun letter => tone letter accidental

/-- Reads a note name. One line feed at its end does no harm. -/
def read? (name : List Char) : Option Spelling :=
  match Text.dropFinalNewline name with
  | [head] => ofHead? head .natural
  | [head, mark] => (Accidental.ofChar? mark).bind (ofHead? head)
  | _ => none

/-- The semitones from `C` up to the note, outside the octave where the accidental leads there. -/
def scaleIndex : Spelling → Int
  | rest _ => 0
  | tone letter accidental => letter.index + accidental.offset

/-- Whether a name spells a rest. -/
def isRest : Spelling → Bool
  | rest _ => true
  | tone _ _ => false

end Spelling

namespace Pitch

/-- The names of the twelve notes of an octave. -/
def names : List String := ["C", "C#", "D", "D#", "E", "F", "F#", "G", "G#", "A", "A#", "B"]

/-- The name of a note of the octave. -/
def name (index : Fin 12) : String := names.get (index.cast rfl)

/-- The note of the octave with an index. -/
def ofIndex (index : Int) : Except Error (Fin 12) :=
  if h : 0 ≤ index ∧ index < 12 then .ok ⟨index.toNat, by omega⟩
  else .error (.stating index (.scaleIndex index))

/-- What a name spells. -/
def spelling (name : String) : Except Error Spelling :=
  match Spelling.read? name.toList with
  | some spelling => .ok spelling
  | none => .error (.noteName name)

/-- The index that a name spells, outside the octave where the accidental leads there. -/
def scaleIndex (name : String) : Except Error Int := (spelling name).map Spelling.scaleIndex

/-- Whether a name starts like a rest. Only the letter counts. -/
def startsRest (name : String) : Bool := name.toList.head? == some 'R'

end Pitch

end Chiptune
