import Chiptune.Command.Word

/-!
# Help

The text that explains the command. Explanations stand in one column; beside a spelling that
reaches into that column there is no room, and the explanation moves to the next line.
-/

namespace Chiptune
namespace Command

/-- The column in which explanations begin. -/
def helpColumn : Nat := 24

/-- What is said about an operand or a switch. -/
structure HelpEntry where
  heading : String
  explanation : String

/-- The lines about an operand or a switch. -/
def HelpEntry.lines (entry : HelpEntry) : List String :=
  let heading := "  " ++ entry.heading
  let filled (text : String) :=
    text ++ String.ofList (List.replicate (helpColumn - text.length) ' ')
  if heading.length + 2 ≤ helpColumn then [filled heading ++ entry.explanation]
  else [heading, filled "" ++ entry.explanation]

/-- The operands of the command. -/
def operandHelp : List HelpEntry := [⟨"inputFile", "MML source file"⟩]

/-- The switches of the command. -/
def switchHelp : List HelpEntry :=
  [⟨"-h, --help", "show this help message and exit"⟩,
    ⟨"-o outputFile, --output outputFile", "WAV output path (default: output.wav)"⟩,
    ⟨"-v, --verbose", "print verbose information"⟩,
    ⟨"-q, --quiet", "only print errors"⟩,
    ⟨"-c CONFIG, --config CONFIG", "YAML config file"⟩,
    ⟨"--midi midiFile", "also write a Standard MIDI File"⟩]

/-- The form of a command line. -/
def usageLines : List String :=
  ["usage: mmlsynth [-h] [-o outputFile] [-v] [-q] [-c CONFIG] [--midi midiFile]",
    "                inputFile"]

/-- The text that explains the command. -/
def helpText : String :=
  let lines :=
    usageLines ++ ["", "Compile an MML score to a WAV file", "", "positional arguments:"] ++
      operandHelp.flatMap HelpEntry.lines ++ ["", "options:"] ++ switchHelp.flatMap HelpEntry.lines
  String.join (lines.map (· ++ "\n"))

/-- What is printed about a command line that asks for nothing that can be done. -/
def complaintText (complaint : Complaint) : String :=
  String.join (usageLines.map (· ++ "\n")) ++ "mmlsynth: error: " ++ complaint.message ++ "\n"

end Command
end Chiptune
