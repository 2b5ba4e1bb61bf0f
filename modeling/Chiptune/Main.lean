import Chiptune.Command.Run

/-!
# The command on a disk

The files that a command line names are looked up, the command is run on what is there, and the
files that it wrote are written to the disk.
-/

namespace Chiptune
namespace Command

/-- The places that a path text passes, from a folder on. -/
def passedPlaces (reached : List String) : List String → List (List String)
  | [] => []
  | part :: rest =>
    let next :=
      if part = "" ∨ part = "." then reached
      else if part = ".." then reached.dropLast
      else reached ++ [part]
    next :: passedPlaces next rest

/-- The paths that arguments name. -/
def Arguments.namedPaths (arguments : Arguments) : List String :=
  [arguments.input] ++ arguments.output?.toList ++ arguments.config?.toList ++
    arguments.midi?.toList

/-- The path of the sample file, where the configuration can be had. -/
def Arguments.outputPath? (arguments : Arguments) (storage : Storage) : Option String :=
  match (arguments.configuration storage).outcome with
  | .error _ => none
  | .ok (config, _) =>
    match arguments.outputValue config with
    | .ok (.text path) => some path
    | _ => none

/-- Adds what stands on the disk under a path from the root. -/
def lookUp (storage : Storage) (parts : List String) : IO Storage := do
  if (storage.find? parts).isSome then
    return storage
  let path := (← IO.currentDir) / ("/" ++ "/".intercalate parts)
  if ← path.isDir then
    return storage.insert parts .folder
  if ← path.pathExists then
    return storage.insert parts (.file (← IO.FS.readBinFile path).toList)
  return storage

/-- Adds what stands on the disk along a path text. -/
def lookUpPath (storage : Storage) (path : String) : IO Storage := do
  let start := if path.startsWith "/" then [] else storage.place
  (passedPlaces start (path.splitOn "/")).foldlM lookUp storage

/-- What stands on the disk, as far as a command line can reach it. -/
def lookAround (words : List String) : IO Storage := do
  let place := (← IO.currentDir).components.filter (· != "")
  let nothing := Storage.empty place
  match Request.ofTexts words with
  | .ok (.compile arguments) =>
    let named ← arguments.namedPaths.foldlM lookUpPath nothing
    match arguments.outputPath? named with
    | some path => lookUpPath named path
    | none => return named
  | _ => return nothing

/-- Writes the files that differ from what was there before. -/
def writeBack (before : Storage) (after : Storage) : IO Unit := do
  for (parts, entry) in after.entries do
    match entry with
    | .folder => pure ()
    | .file bytes =>
      if before.find? parts != some entry then
        let path := (← IO.currentDir) / ("/" ++ "/".intercalate parts)
        IO.FS.writeBinFile path ⟨bytes.toArray⟩

end Command
end Chiptune

/-- Compiles a score to a sample file. -/
def main (words : List String) : IO UInt32 := do
  let before ← Chiptune.Command.lookAround words
  let outcome := Chiptune.Command.run words before
  Chiptune.Command.writeBack before outcome.storage
  IO.print outcome.output
  for event in outcome.log do
    IO.eprintln event.line
  if let some complaint := outcome.complaint? then
    IO.eprint (Chiptune.Command.complaintText complaint)
  return outcome.status
