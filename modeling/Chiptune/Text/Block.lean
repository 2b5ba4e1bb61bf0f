import Chiptune.Text.Lines
import Chiptune.Text.Utf8

/-!
# A text file in blocks

A file that is read as text comes in blocks of so many characters, and is taken from the disk in
pieces of so many bytes. A file that is spoilt somewhere gives all blocks in front of that place. The
report counts bytes from the start of the piece that is spoilt, and of a character begun before it.
-/

namespace Chiptune
namespace Text

/-- How many characters are in a block. -/
def blockLength : Nat := 4096

/-- The least number of bytes in a piece. -/
def pieceLength : Nat := 8192

/-- A file that is being read. -/
structure BlockReader where
  /-- The bytes that are still on the disk. -/
  bytes : List UInt8
  /-- The first bytes of a character that is not complete. -/
  cut : List UInt8 := []
  /-- Whether the last character was a carriage return, with which a line feed may go. -/
  afterReturn : Bool := false
  /-- The characters that have been read and not been given. -/
  ready : List Char := []
  /-- How many bytes the characters of the last piece had. -/
  width : Float := 0.0

namespace BlockReader

/-- How many bytes are taken for so many characters that are wanted. -/
def pieceFor (reader : BlockReader) (wanted : Nat) : Nat :=
  let width := if reader.width > 1.0 then reader.width else 1.0
  max pieceLength (width * wanted.toFloat).toUInt64.toNat

/-- Takes the next piece from the disk, and says whether it was the end of the file. -/
def readPiece (reader : BlockReader) (wanted : Nat) : Except Utf8.Fault (BlockReader × Bool) := do
  let piece := reader.bytes.take (reader.pieceFor wanted)
  let atEnd := piece.isEmpty
  let (text, cut) ←
    if atEnd then do pure (← Utf8.decode reader.cut, [])
    else Utf8.decodeSome (reader.cut ++ piece)
  let resumes := reader.afterReturn && (atEnd || !text.isEmpty)
  let joined := if resumes then '\r' :: text else text
  let holds := !atEnd && joined.getLast? == some '\r'
  let lines := normalizeNewlines (if holds then joined.dropLast else joined)
  let width :=
    if lines.isEmpty then 0.0 else piece.length.toFloat / lines.length.toFloat
  let next : BlockReader :=
    { bytes := reader.bytes.drop piece.length
      cut
      afterReturn := holds || (reader.afterReturn && !resumes)
      ready := lines
      width }
  return (next, atEnd && lines.isEmpty)

/-- Reads so many characters, or those that are left. -/
def readChars (wanted : Nat) : Nat → BlockReader → Except Utf8.Fault (List Char × BlockReader)
  | 0, reader => .ok ([], reader)
  | fuel + 1, reader => do
    let given := reader.ready.take wanted
    let rest := { reader with ready := reader.ready.drop wanted }
    if given.length = wanted then
      return (given, rest)
    else
      let (next, atEnd) ← rest.readPiece (wanted - given.length)
      if atEnd then
        return (given, next)
      else
        let (more, last) ← readChars (wanted - given.length) fuel next
        return (given ++ more, last)

/-- The blocks of a file, and what spoils it behind the last of them. -/
def blocks : Nat → BlockReader → List (List Char) × Option Utf8.Fault
  | 0, _ => ([], none)
  | fuel + 1, reader =>
    match reader.readChars blockLength (reader.bytes.length + 3) with
    | .error fault => ([], some fault)
    | .ok ([], _) => ([], none)
    | .ok (block, next) =>
      let (later, fault?) := blocks fuel next
      (block :: later, fault?)

end BlockReader

/-- The blocks of the file that holds some bytes, and what spoils it behind the last of them. -/
def blocksOf (bytes : List UInt8) : List (List Char) × Option Utf8.Fault :=
  BlockReader.blocks (bytes.length + 2) { bytes }

end Text
end Chiptune
