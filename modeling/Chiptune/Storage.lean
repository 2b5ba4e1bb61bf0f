import Chiptune.Bytes

/-!
# Storage

Files and folders as a value: every file with its bytes, under its path from the root, and the
folder from which path texts are followed. In a path text, `.` and `..` mean what they do in a
shell.
-/

namespace Chiptune

/-- What a path leads to. -/
inductive Entry where
  | file (bytes : List UInt8)
  | folder
  deriving DecidableEq, Repr

/-- Files and folders, and the folder in which one works. -/
structure Storage where
  place : List String
  entries : List (List String × Entry)
  deriving Repr

namespace Storage

/-- A folder with nothing in it. -/
def empty (place : List String) : Storage := ⟨place, []⟩

/-- What stands under a path from the root, given by its parts. The folder in which one works is
there, and so are the folders that it is in. -/
def find? (storage : Storage) (parts : List String) : Option Entry :=
  if parts.isPrefixOf storage.place then some .folder
  else (storage.entries.find? fun entry => entry.1 == parts).map (·.2)

/-- Puts an entry under a path from the root, in place of what was there. -/
def insert (storage : Storage) (parts : List String) (entry : Entry) : Storage :=
  if storage.entries.any fun old => old.1 == parts then
    { storage with
      entries := storage.entries.map fun old => if old.1 == parts then (parts, entry) else old }
  else
    { storage with entries := storage.entries ++ [(parts, entry)] }

/-- The greatest number of bytes in the name of an entry. -/
def nameLimit : Nat := 255

/-- The number of bytes that a path text has to stay below. -/
def pathLimit : Nat := 4096

/-- Follows the parts of a path on from a folder. Every place but the last has to be a folder. -/
def follow (storage : Storage) (reached : List String) :
    List String → Except PathFault (List String)
  | [] => .ok reached
  | part :: rest =>
    match storage.find? reached with
    | none => .error .missing
    | some (.file _) => .error .notDirectory
    | some .folder =>
      if part = "" ∨ part = "." then storage.follow reached rest
      else if part = ".." then storage.follow reached.dropLast rest
      else if nameLimit < part.utf8ByteSize then .error .nameTooLong
      else storage.follow (reached ++ [part]) rest

/-- Follows parts of a path text from where the text starts. -/
def walk (storage : Storage) (path : String) (parts : List String) : Except Error (List String) :=
  if path.contains '\x00' then .error .nullInPath
  else if path = "" then .error (.path .missing path)
  else if pathLimit ≤ path.utf8ByteSize then .error (.path .nameTooLong path)
  else
    let start := if path.startsWith "/" then [] else storage.place
    match storage.follow start parts with
    | .ok reached => .ok reached
    | .error fault => .error (.path fault path)

/-- Where a path text leads, from the root. -/
def locate (storage : Storage) (path : String) : Except Error (List String) :=
  storage.walk path (path.splitOn "/")

/-- Whether a path leads to a file or a folder. -/
def contains (storage : Storage) (path : String) : Bool :=
  match storage.locate path with
  | .ok reached => (storage.find? reached).isSome
  | .error _ => false

/-- The bytes of a file. -/
def read (storage : Storage) (path : String) : Except Error (List UInt8) := do
  match storage.find? (← storage.locate path) with
  | some (.file bytes) => return bytes
  | some .folder => throw (.path .isDirectory path)
  | none => throw (.path .missing path)

/-- Writes a file, in place of one that was there. A path text with a stroke at its end names a
folder, whether one is there or not. -/
def write (storage : Storage) (path : String) (bytes : List UInt8) : Except Error Storage := do
  let parts := path.splitOn "/"
  let named := (parts.reverse.dropWhile (· == "")).reverse
  let reached ← storage.walk path named
  if named ≠ parts ∨ storage.find? reached = some .folder then
    throw (.path .isDirectory path)
  return storage.insert reached (.file bytes)

/-- Whether a place can be written to does not hang on what is written. -/
theorem exists_write {storage next : Storage} {path : String} {old : List UInt8}
    (h : storage.write path old = .ok next) (bytes : List UInt8) :
    ∃ next, storage.write path bytes = .ok next := by
  unfold write at h ⊢
  obtain ⟨reached, hreached, h⟩ := bind_eq_ok_iff.mp h
  simp only at h
  split at h
  · cases h
  · rename_i hplace
    refine ⟨storage.insert reached (.file bytes), bind_eq_ok_iff.mpr ⟨reached, hreached, ?_⟩⟩
    simp only
    rw [if_neg hplace]
    rfl

end Storage

end Chiptune
