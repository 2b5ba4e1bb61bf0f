import Chiptune.Text.Digit
import Chiptune.Text.Quoted

/-!
# Words of a command line

A word of a command line is an operand or begins with a dash and spells a switch. A long spelling
may be cut short as long as one switch alone begins like it; a short one may have its value, or
further short switches, right behind it. What a word is taken for depends on the word alone,
except that everything behind a bare double dash is an operand.
-/

namespace Chiptune
namespace Command

/-- A switch that takes no value. -/
inductive Flag where
  | help
  | verbose
  | quiet
  deriving DecidableEq, Repr

/-- A switch that takes a value. -/
inductive Slot where
  | output
  | config
  | midi
  deriving DecidableEq, Repr

/-- What a word with a dash in front asks for. -/
inductive Switch where
  | flag (flag : Flag)
  | slot (slot : Slot)
  deriving DecidableEq, Repr

namespace Switch

/-- Every spelling, in the order in which switches are listed. -/
def spellings : List (String × Switch) :=
  [("-h", .flag .help), ("--help", .flag .help),
    ("-o", .slot .output), ("--output", .slot .output),
    ("-v", .flag .verbose), ("--verbose", .flag .verbose),
    ("-q", .flag .quiet), ("--quiet", .flag .quiet),
    ("-c", .slot .config), ("--config", .slot .config),
    ("--midi", .slot .midi)]

/-- The switch with a spelling. -/
def ofSpelling? (spelling : String) : Option Switch :=
  (spellings.find? fun entry => entry.1 == spelling).map (·.2)

/-- A switch by all its spellings. -/
def name (switch : Switch) : String :=
  "/".intercalate ((spellings.filter fun entry => entry.2 == switch).map (·.1))

end Switch

/-- Why a command line asks for nothing that can be done. -/
inductive Complaint where
  /-- A word that begins like several spellings. -/
  | ambiguous (word : String) (spellings : List String)
  /-- A switch without the value that it takes. -/
  | valueMissing (slot : Slot)
  /-- A switch with a value that it does not take. -/
  | valueIgnored (flag : Flag) (value : String)
  /-- No operand at all. -/
  | inputMissing
  /-- Words for which there is no use. -/
  | unrecognized (words : List String)
  deriving DecidableEq, Repr

/-- The wording of a complaint. -/
def Complaint.message : Complaint → String
  | ambiguous word spellings =>
    "ambiguous option: " ++ word ++ " could match " ++ ", ".intercalate spellings
  | valueMissing slot => "argument " ++ (Switch.slot slot).name ++ ": expected one argument"
  | valueIgnored flag value =>
    "argument " ++ (Switch.flag flag).name ++ ": ignored explicit argument " ++ Text.quoted value
  | inputMissing => "the following arguments are required: inputFile"
  | unrecognized words => "unrecognized arguments: " ++ " ".intercalate words

/-- What a word is taken for. -/
inductive Word where
  | operand (text : String)
  /-- A switch, with what stands behind its spelling in the same word. A short spelling lets
  further switches follow. -/
  | switch (switch : Switch) (isShort : Bool) (attached? : Option String)
  /-- A word that looks like a switch and is none. -/
  | unknown (text : String)
  /-- The bare double dash, behind which all is operands. -/
  | divider
  deriving DecidableEq, Repr

namespace Word

/-- A word before and behind its first equals sign. -/
def splitAtEquals : List Char → Option (List Char × List Char)
  | [] => none
  | '=' :: rest => some ([], rest)
  | c :: rest => (splitAtEquals rest).map fun split => (c :: split.1, split.2)

/-- Whether characters are digits, at least one. -/
def areDigits (text : List Char) : Bool := !text.isEmpty && text.all Text.isDigit

/-- Whether a word is a negative number. A line break at its end does not count. -/
def isNegativeNumber : List Char → Bool
  | '-' :: rest =>
    let number := if rest.getLast? = some '\n' then rest.dropLast else rest
    areDigits number ||
      match number.dropWhile Text.isDigit with
      | '.' :: decimals => areDigits decimals
      | _ => false
  | _ => false

/-- Whether a spelling, of one dash and a letter, can be followed by more in the same word. -/
def isShort (spelling : String) : Bool := !spelling.startsWith "--"

/-- Every reading of a word as a spelling that is cut short, or has more behind it. -/
def candidates (word : List Char) : List (String × Word) :=
  match word with
  | '-' :: '-' :: _ =>
    let (begun, attached?) :=
      match splitAtEquals word with
      | some (begun, value) => (begun, some (String.ofList value))
      | none => (word, none)
    Switch.spellings.filterMap fun entry =>
      if begun.isPrefixOf entry.1.toList then
        some (entry.1, .switch entry.2 (isShort entry.1) attached?)
      else none
  | _ =>
    Switch.spellings.filterMap fun entry =>
      if entry.1.toList = word.take 2 then
        some (entry.1, .switch entry.2 true (some (String.ofList (word.drop 2))))
      else if word.isPrefixOf entry.1.toList then
        some (entry.1, .switch entry.2 (isShort entry.1) none)
      else none

/-- Reads a word that is, up to an equals sign, exactly a spelling. -/
def ofExact? (word : List Char) : Option Word :=
  match Switch.ofSpelling? (String.ofList word) with
  | some found => some (.switch found (isShort (String.ofList word)) none)
  | none => do
    let (spelling, value) ← splitAtEquals word
    let found ← Switch.ofSpelling? (String.ofList spelling)
    return .switch found (isShort (String.ofList spelling)) (some (String.ofList value))

/-- What a word is taken for that is not behind a double dash. -/
def ofText (text : String) : Except Complaint Word :=
  let word := text.toList
  match word with
  | '-' :: _ :: _ =>
    match ofExact? word with
    | some exact => .ok exact
    | none =>
      match candidates word with
      | [only] => .ok only.2
      | [] =>
        if isNegativeNumber word || word.contains ' ' then .ok (.operand text)
        else .ok (.unknown text)
      | several => .error (.ambiguous text (several.map (·.1)))
  | _ => .ok (.operand text)

/-- The words of a command line. -/
def ofTexts : List String → Except Complaint (List Word)
  | [] => .ok []
  | text :: rest =>
    if text = "--" then .ok (.divider :: rest.map .operand)
    else do return (← ofText text) :: (← ofTexts rest)

end Word

end Command
end Chiptune
