import Chiptune.Command.Word

/-!
# Arguments of the command

The words of a command line from left to right: the first operand is the source, a switch that
takes a value has it attached or takes the operand behind it, and whatever is left over is
complained about at the end. Help is given as soon as it is asked for, whatever may follow.
-/

namespace Chiptune
namespace Command

/-- What the command is asked to do. A file that is not named is `none`. -/
structure Arguments where
  input : String
  output? : Option String := none
  config? : Option String := none
  midi? : Option String := none
  verbose : Bool := false
  quiet : Bool := false
  deriving DecidableEq, Repr

/-- A switch as it was given. -/
inductive Setting where
  | flag (flag : Flag)
  | value (slot : Slot) (text : String)
  deriving DecidableEq, Repr

/-- What a command line asks for. -/
inductive Request where
  | help
  | compile (arguments : Arguments)
  deriving DecidableEq, Repr

/-- Why the reading of a command line ends before its time. -/
inductive Stop where
  | help
  | complaint (complaint : Complaint)
  deriving DecidableEq, Repr

namespace Arguments

/-- Arguments that are not all known yet. -/
structure Draft where
  input? : Option String := none
  output? : Option String := none
  config? : Option String := none
  midi? : Option String := none
  verbose : Bool := false
  quiet : Bool := false
  /-- A switch that waits for its value, and what stood before it in the same word. -/
  waiting? : Option (List Setting × Slot) := none
  /-- Whether the word before was the source. -/
  atInput : Bool := false
  /-- The words for which there was no use. -/
  unused : List String := []
  deriving DecidableEq, Repr

/-- The file that a value names: none where the value is empty. -/
def file? (text : String) : Option String := if text = "" then none else some text

/-- Takes in a switch. A later value takes the place of an earlier one. -/
def Draft.apply (draft : Draft) : Setting → Except Stop Draft
  | .flag .help => .error .help
  | .flag .verbose => .ok { draft with verbose := true }
  | .flag .quiet => .ok { draft with quiet := true }
  | .value .output text => .ok { draft with output? := file? text }
  | .value .config text => .ok { draft with config? := file? text }
  | .value .midi text => .ok { draft with midi? := file? text }

/-- A value that is attached to its switch. A double dash there stands for no value. -/
def attachedValue (text : String) : String := if text = "--" then "" else text

/-- The switches that share the dash of a first one, up to the one that takes a value: then what is
left of the word is the value, or the value is still to come. -/
def cluster (flag : Flag) : List Char → Except Complaint (List Setting × Option Slot)
  | [] => .ok ([.flag flag], none)
  | c :: rest =>
    match Switch.ofSpelling? (String.ofList ['-', c]) with
    | none => .error (.valueIgnored flag (String.ofList (c :: rest)))
    | some (.flag next) => do
      let (settings, waiting?) ← cluster next rest
      return (.flag flag :: settings, waiting?)
    | some (.slot slot) =>
      if rest.isEmpty then .ok ([.flag flag], some slot)
      else .ok ([.flag flag, .value slot (attachedValue (String.ofList rest))], none)

/-- The switches in a word, and the one that waits for its value. -/
def settings (switch : Switch) (isShort : Bool) (attached? : Option String) :
    Except Complaint (List Setting × Option Slot) :=
  match switch, attached? with
  | .slot slot, none => .ok ([], some slot)
  | .slot slot, some text => .ok ([.value slot (attachedValue text)], none)
  | .flag flag, none => .ok ([.flag flag], none)
  | .flag flag, some text =>
    if isShort ∧ text ≠ "" then cluster flag text.toList
    else .error (.valueIgnored flag text)

/-- Reads one word. A double dash right behind the source, or before it, has done its work; any
other is a word too many. -/
def Draft.step (draft : Draft) (word : Word) : Except Stop Draft :=
  let next := { draft with waiting? := none, atInput := false }
  match draft.waiting?, word with
  | some (given, slot), .operand text => (given ++ [Setting.value slot text]).foldlM Draft.apply next
  | some (_, slot), _ => .error (.complaint (.valueMissing slot))
  | none, .operand text =>
    if draft.input?.isNone then .ok { next with input? := some text, atInput := true }
    else .ok { next with unused := draft.unused ++ [text] }
  | none, .unknown text => .ok { next with unused := draft.unused ++ [text] }
  | none, .divider =>
    if draft.input?.isNone ∨ draft.atInput then .ok next
    else .ok { next with unused := draft.unused ++ ["--"] }
  | none, .switch switch isShort attached? =>
    match settings switch isShort attached? with
    | .error complaint => .error (.complaint complaint)
    | .ok (given, none) => given.foldlM Draft.apply next
    | .ok (given, some slot) => .ok { next with waiting? := some (given, slot) }

/-- Completes the arguments: no switch may wait for its value, a source has to be named, and no
word may be left over. -/
def Draft.finish (draft : Draft) : Except Complaint Arguments :=
  match draft.waiting?, draft.input? with
  | some (_, slot), _ => .error (.valueMissing slot)
  | none, none => .error .inputMissing
  | none, some input =>
    if draft.unused.isEmpty then
      .ok {
        input
        output? := draft.output?
        config? := draft.config?
        midi? := draft.midi?
        verbose := draft.verbose
        quiet := draft.quiet
      }
    else
      .error (.unrecognized draft.unused)

end Arguments

namespace Request

/-- What a command line asks for, word by word. -/
def ofWords (words : List Word) : Except Complaint Request :=
  match words.foldlM Arguments.Draft.step {} with
  | .error .help => .ok .help
  | .error (.complaint complaint) => .error complaint
  | .ok draft => draft.finish.map .compile

/-- What a command line asks for. -/
def ofTexts (texts : List String) : Except Complaint Request := do
  ofWords (← Word.ofTexts texts)

end Request

end Command
end Chiptune
