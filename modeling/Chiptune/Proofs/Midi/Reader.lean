import Chiptune.Midi.File
import Chiptune.Proofs.Bytes

/-!
# Reading a MIDI file

A reader of Standard MIDI Files (`decode`), written from the format and not from the writer: it knows
running status, system exclusive events and channel messages that no track of a score has, and takes
what comes by the sizes and the marks in the bytes alone. A track ends with the only message that
ends it, and with it the bytes of its chunk.

Every message takes at least one byte (`length_lt_of_readMessage`), so a track comes to its end.
-/

namespace Chiptune

/-- The text of bytes that each hold the number of a character. -/
def Text.Latin.decode (bytes : List UInt8) : String :=
  String.ofList (bytes.map fun byte => Char.ofNat byte.toNat)

namespace Midi

open Bytes

/-! ## The reader -/

/-- A number in groups of seven bits, behind those read already, and the bytes after it. A group with
a mark has another one behind it. -/
def readNumber (above : Nat) : List UInt8 → Option (Nat × List UInt8)
  | [] => none
  | byte :: rest =>
    if byte.toNat < 0x80 then some (128 * above + byte.toNat, rest)
    else readNumber (128 * above + (byte.toNat - 0x80)) rest

/-- So many bytes, and those after them. -/
def readBytes (size : Nat) (bytes : List UInt8) : Option (List UInt8 × List UInt8) :=
  if size ≤ bytes.length then some (bytes.take size, bytes.drop size) else none

/-- Bytes with their number in front of them, and those after them. -/
def readContent (bytes : List UInt8) : Option (List UInt8 × List UInt8) :=
  (readNumber 0 bytes).bind fun (size, rest) => readBytes size rest

/-- An event of a track, apart from its time. -/
inductive Packet where
  /-- A message to an instrument. -/
  | voice (status : UInt8) (content : List UInt8)
  /-- A message to one kind of device. -/
  | exclusive (content : List UInt8)
  /-- A message to whoever plays the file. -/
  | special (type : UInt8) (content : List UInt8)
  deriving DecidableEq, Repr

/-- The status that need not be repeated after an event. -/
def Packet.running? : Packet → Option UInt8
  | voice status _ => some status
  | exclusive _ | special .. => none

/-- How many bytes stand behind a status: one where a program or a pressure is set, else two. -/
def voiceSize (status : UInt8) : Nat :=
  if 0xc0 ≤ status.toNat ∧ status.toNat < 0xe0 then 1 else 2

/-- A message to an instrument, its status read already. -/
def readVoice (status : UInt8) (bytes : List UInt8) : Option (Packet × List UInt8) :=
  (readBytes (voiceSize status) bytes).bind fun (content, rest) =>
    if content.all fun byte => byte.toNat < 0x80 then some (.voice status content, rest) else none

/-- A message to whoever plays the file, its mark read already. -/
def readSpecial : List UInt8 → Option (Packet × List UInt8)
  | [] => none
  | type :: rest => (readContent rest).map fun (content, rest) => (.special type content, rest)

/-- An event and the bytes after it. Without a status of its own it has the one before. -/
def readPacket (running : Option UInt8) : List UInt8 → Option (Packet × List UInt8)
  | [] => none
  | status :: rest =>
    if status.toNat < 0x80 then running.bind fun status' => readVoice status' (status :: rest)
    else if status.toNat < 0xf0 then readVoice status rest
    else if status = 0xf0 ∨ status = 0xf7 then
      (readContent rest).map fun (content, rest) => (.exclusive content, rest)
    else if status = 0xff then readSpecial rest
    else none

/-- The message of an event, if it is one that a track of a score can have. -/
def Packet.message? (time : Nat) : Packet → Option Message
  | .voice status [note, velocity] =>
    if status.toNat / 16 = 9 then
      some (.noteOn (status.toNat % 16 : Nat) note.toNat velocity.toNat time)
    else if status.toNat / 16 = 8 then
      some (.noteOff (status.toNat % 16 : Nat) note.toNat velocity.toNat time)
    else none
  | .special type content =>
    if type = 0x03 then some (.trackName (Text.Latin.decode content) time)
    else if type = 0x51 ∧ content.length = 3 then
      some (.setTempo (Order.greatest.number content) time)
    else if type = 0x2f ∧ content = [] then some (.endOfTrack time)
    else none
  | _ => none

/-- A message with its time, the status that it leaves, and the bytes after it. -/
def readMessage (running : Option UInt8) (bytes : List UInt8) :
    Option (Message × Option UInt8 × List UInt8) := do
  let (time, rest) ← readNumber 0 bytes
  let (packet, rest) ← readPacket running rest
  return (← packet.message? time, packet.running?, rest)

theorem length_lt_of_readNumber {above n : Nat} {bytes rest : List UInt8}
    (h : readNumber above bytes = some (n, rest)) : rest.length < bytes.length := by
  induction bytes generalizing above with
  | nil => cases h
  | cons byte later ih =>
    rw [readNumber] at h
    split at h
    · cases h
      exact Nat.lt_succ_self _
    · exact Nat.lt_succ_of_lt (ih h)

theorem length_le_of_readBytes {size : Nat} {bytes content rest : List UInt8}
    (h : readBytes size bytes = some (content, rest)) : rest.length ≤ bytes.length := by
  unfold readBytes at h
  split at h
  · cases h
    rw [List.length_drop]
    exact Nat.sub_le _ _
  · cases h

theorem length_le_of_readContent {bytes content rest : List UInt8}
    (h : readContent bytes = some (content, rest)) : rest.length ≤ bytes.length := by
  obtain ⟨⟨size, later⟩, hsize, h⟩ := Option.bind_eq_some_iff.mp h
  exact Nat.le_trans (length_le_of_readBytes h) (Nat.le_of_lt (length_lt_of_readNumber hsize))

theorem length_le_of_readVoice {status : UInt8} {bytes rest : List UInt8} {packet : Packet}
    (h : readVoice status bytes = some (packet, rest)) : rest.length ≤ bytes.length := by
  obtain ⟨⟨content, later⟩, hcontent, h⟩ := Option.bind_eq_some_iff.mp h
  simp only at h
  split at h
  · cases h
    exact length_le_of_readBytes hcontent
  · cases h

theorem length_le_of_readSpecial {bytes rest : List UInt8} {packet : Packet}
    (h : readSpecial bytes = some (packet, rest)) : rest.length ≤ bytes.length := by
  cases bytes with
  | nil => cases h
  | cons type later =>
    obtain ⟨⟨content, behind⟩, hcontent, h⟩ := Option.map_eq_some_iff.mp h
    cases h
    exact Nat.le_trans (length_le_of_readContent hcontent) (Nat.le_succ _)

theorem length_le_of_readPacket {running : Option UInt8} {bytes rest : List UInt8} {packet : Packet}
    (h : readPacket running bytes = some (packet, rest)) : rest.length ≤ bytes.length := by
  unfold readPacket at h
  split at h
  · cases h
  · rename_i status later
    have hlater : later.length ≤ (status :: later).length := Nat.le_succ _
    split at h
    · obtain ⟨status', -, h⟩ := Option.bind_eq_some_iff.mp h
      exact length_le_of_readVoice h
    · split at h
      · exact Nat.le_trans (length_le_of_readVoice h) hlater
      · split at h
        · obtain ⟨⟨content, behind⟩, hcontent, h⟩ := Option.map_eq_some_iff.mp h
          cases h
          exact Nat.le_trans (length_le_of_readContent hcontent) hlater
        · split at h
          · exact Nat.le_trans (length_le_of_readSpecial h) hlater
          · cases h

theorem length_lt_of_readMessage {running left : Option UInt8} {bytes rest : List UInt8}
    {message : Message} (h : readMessage running bytes = some (message, left, rest)) :
    rest.length < bytes.length := by
  obtain ⟨⟨time, behind⟩, htime, h⟩ := Option.bind_eq_some_iff.mp h
  obtain ⟨⟨packet, later⟩, hpacket, h⟩ := Option.bind_eq_some_iff.mp h
  obtain ⟨message', -, h⟩ := Option.bind_eq_some_iff.mp h
  cases h
  exact Nat.lt_of_le_of_lt (length_le_of_readPacket hpacket) (length_lt_of_readNumber htime)

/-- The messages of a track. Nothing stands behind its end. -/
def readTrack (running : Option UInt8) (bytes : List UInt8) : Option (List Message) :=
  match _h : readMessage running bytes with
  | none => none
  | some (message, running, rest) =>
    if message.isEnd then if rest = [] then some [message] else none
    else (readTrack running rest).map (message :: ·)
termination_by bytes.length
decreasing_by exact length_lt_of_readMessage ‹_›

/-- What a file holds: its type, the ticks of a quarter note, and its tracks. -/
structure File where
  type : Nat
  division : Nat
  tracks : List (List Message)
  deriving DecidableEq, Repr

/-- Reads a file: a header that says how many tracks there are, and so many tracks. -/
def decode (bytes : List UInt8) : Option File :=
  match readChunks .greatest 1 bytes with
  | some (head :: chunks) =>
    let field := fun place => Order.greatest.number ((head.content.drop place).take 2)
    if head.name = ascii "MThd" ∧ head.content.length = 6 ∧ field 2 = chunks.length ∧
        ∀ chunk ∈ chunks, chunk.name = ascii "MTrk" then
      (chunks.mapM fun chunk => readTrack none chunk.content).map fun tracks =>
        ⟨field 0, field 4, tracks⟩
    else none
  | _ => none

end Midi
end Chiptune
