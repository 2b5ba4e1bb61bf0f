import Chiptune.Bytes
import Chiptune.Midi.Track

/-!
# MIDI files

A Standard MIDI File of type 1: a header chunk and one chunk for every track. Times and lengths are
written in groups of seven bits, the greatest group first, and names in Latin-1. A track without an
end gets one.

Every track is put together before its chunk is written, so where a name cannot be written, or the
size of a track does not fit its field, the file holds the tracks before it.
-/

namespace Chiptune
namespace Midi

/-- The groups of seven bits of a number, the greatest first, in front of bytes already there;
all but the last of them are marked. -/
def prependGroups (n : Nat) (behind : List UInt8) : List UInt8 :=
  if h : n = 0 then behind
  else prependGroups (n / 128) ((n % 128 + 128).toUInt8 :: behind)
termination_by n

/-- A number in as few groups of seven bits as it takes. -/
def variableLength (n : Nat) : List UInt8 := prependGroups (n / 128) [(n % 128).toUInt8]

/-- A message that is no event of an instrument: its type and its data. -/
def metaBytes (type : UInt8) (content : List UInt8) : List UInt8 :=
  0xff :: type :: variableLength content.length ++ content

/-- A message without its time. -/
def Message.body : Message → Except Error (List UInt8)
  | trackName name _ =>
    match Text.Latin.encode name with
    | .ok content => .ok (metaBytes 0x03 content)
    | .error fault => .error (.unencodable fault)
  | setTempo tempo _ => .ok (metaBytes 0x51 (Bytes.bigEndian 3 tempo.toNat))
  | noteOn channel note velocity _ =>
    .ok [(0x90 + channel.toNat).toUInt8, note.toNat.toUInt8, velocity.toNat.toUInt8]
  | noteOff channel note velocity _ =>
    .ok [(0x80 + channel.toNat).toUInt8, note.toNat.toUInt8, velocity.toNat.toUInt8]
  | endOfTrack _ => .ok (metaBytes 0x2f [])

/-- Whether a message ends its track. -/
def Message.isEnd : Message → Bool
  | endOfTrack _ => true
  | _ => false

/-- A track with an end, if it has none. -/
def withEnd (messages : List Message) : List Message :=
  if messages.any Message.isEnd then messages else messages ++ [.endOfTrack 0]

/-- The data of a track. -/
def trackBytes : List Message → Except Error (List UInt8)
  | [] => .ok []
  | message :: rest => do
    let body ← message.body
    return variableLength message.time.toNat ++ body ++ (← trackBytes rest)

/-- A chunk: its name, the size of its data and the data. -/
def chunk (name : String) (content : List UInt8) : Except Error (List UInt8) := do
  let size ← Bytes.long content.length
  return Bytes.ascii name ++ size.reverse ++ content

/-- The chunks of tracks, up to the first that cannot be written. -/
def trackChunks : List (List Message) → Written
  | [] => ⟨[], none⟩
  | messages :: rest =>
    match trackBytes (withEnd messages) >>= chunk "MTrk" with
    | .error error => ⟨[], some error⟩
    | .ok bytes =>
      let later := trackChunks rest
      ⟨bytes ++ later.bytes, later.failure?⟩

/-- The header: the type, the number of tracks and the ticks of a quarter note. -/
def header (tracks : Nat) : Except Error (List UInt8) := do
  let count ← Bytes.signedShort tracks
  chunk "MThd" (Bytes.bigEndian 2 1 ++ count ++ Bytes.bigEndian 2 ticksPerBeat.toNat)

/-- The bytes of a file with the given tracks. -/
def encode (tracks : List (List Message)) : Written :=
  match header tracks.length with
  | .error error => ⟨[], some error⟩
  | .ok head =>
    let chunks := trackChunks tracks
    ⟨head ++ chunks.bytes, chunks.failure?⟩

end Midi
end Chiptune
