import Mathlib.Data.List.Forall2
import Chiptune.Proofs.Midi.Export
import Chiptune.Proofs.Midi.Reader

/-!
# A MIDI file read back

What is saved of a score is read back as it was: the tempo and the tracks of its channels, message by
message (`decode_saved`). The reader goes by sizes and marks, so each part is read back whatever
stands behind it: a number, an event, a message (`readMessage_append`); and a track, because its one
end is at its end (`Ended`).
-/

namespace Chiptune

theorem Text.Latin.decode_encode {text : String} {content : List UInt8}
    (h : encode text = .ok content) : decode content = text := by
  have hlatin := Midi.exists_encode_iff.mp ⟨content, h⟩
  have hback : ∀ c ∈ text.toList, Char.ofNat c.toNat.toUInt8.toNat = c := fun c hc => by
    rw [Bytes.toNat_toUInt8 (hlatin c hc), Char.ofNat_toNat]
  unfold encode at h
  simp only at h
  split at h
  · cases h
    rw [decode, List.map_map]
    exact (congrArg String.ofList ((List.map_congr_left hback).trans (List.map_id' _))).trans
      String.ofList_toList
  · cases h

/-- What it means that a score is saved. -/
theorem Saved.midi_eq_ok {storage : Storage} {path : String} {score : Score}
    (h : (Saved.midi storage path score).report.outcome = .ok ()) :
    ∃ result, (Midi.tracks score Midi.ticksPerBeat).outcome = .ok result ∧
      (Midi.encode result).failure? = none ∧
      storage.write path (Midi.encode result).bytes = .ok (Saved.midi storage path score).storage := by
  cases hresult : (Midi.tracks score Midi.ticksPerBeat).outcome with
  | error error =>
    have hfailed : (Saved.midi storage path score).report.outcome = .error error := by
      unfold Saved.midi
      simp only
      rw [hresult]
    rw [hfailed] at h
    cases h
  | ok result =>
    cases hwrite : storage.write path (Midi.encode result).bytes with
    | error error =>
      have hfailed : (Saved.midi storage path score).report.outcome = .error error := by
        unfold Saved.midi Saved.file
        simp only
        rw [hresult]
        simp only
        rw [hwrite]
        rfl
      rw [hfailed] at h
      cases h
    | ok next =>
      obtain ⟨hnext, hiff⟩ := Saved.midi_eq hresult hwrite
      exact ⟨result, rfl, hiff.mp h, by rw [hnext, hwrite]⟩

namespace Midi

open Bytes

/-! ## What is written, read back -/

theorem readNumber_prependGroups (n : Nat) (behind rest : List UInt8) :
    readNumber 0 (prependGroups n behind ++ rest) = readNumber n (behind ++ rest) := by
  induction n, behind using prependGroups.induct with
  | case1 behind => rw [prependGroups, dif_pos rfl]
  | case2 n behind hn ih =>
    have hbyte : (n % 128 + 128).toUInt8.toNat = n % 128 + 128 := toNat_toUInt8 (by omega)
    rw [prependGroups, dif_neg hn, ih, List.cons_append, readNumber, hbyte, if_neg (by omega),
      show 128 * (n / 128) + (n % 128 + 128 - 0x80) = n by omega]

/-- A number is read as it is, in however many groups. -/
theorem readNumber_variableLength (n : Nat) (rest : List UInt8) :
    readNumber 0 (variableLength n ++ rest) = some (n, rest) := by
  have hbyte : (n % 128).toUInt8.toNat = n % 128 := toNat_toUInt8 (by omega)
  rw [variableLength, readNumber_prependGroups, List.singleton_append, readNumber, hbyte,
    if_pos (by omega), Nat.div_add_mod]

theorem readBytes_append {content : List UInt8} (rest : List UInt8) :
    readBytes content.length (content ++ rest) = some (content, rest) := by
  rw [readBytes, if_pos (by rw [List.length_append]; omega), List.take_left, List.drop_left]

theorem readPacket_metaBytes (running : Option UInt8) (type : UInt8) (content rest : List UInt8) :
    readPacket running (metaBytes type content ++ rest) = some (.special type content, rest) := by
  have hcontent : readContent (variableLength content.length ++ (content ++ rest)) =
      some (content, rest) := by
    rw [readContent, readNumber_variableLength]
    exact readBytes_append rest
  rw [metaBytes, List.append_assoc, List.cons_append, List.cons_append, readPacket,
    if_neg (by decide), if_neg (by decide), if_neg (by decide), if_pos rfl, readSpecial, hcontent]
  rfl

/-- An on or an off: four bits of the status say which, and four are the channel. -/
theorem readPacket_stroke (running : Option UInt8) {kind : Nat} {channel note velocity : Int}
    (hkind : kind = 9 ∨ kind = 8) (hchannel : 0 ≤ channel ∧ channel ≤ 15)
    (hnote : 0 ≤ note ∧ note ≤ 127) (hvelocity : 0 ≤ velocity ∧ velocity ≤ 127)
    (rest : List UInt8) :
    ∃ status note' velocity' : UInt8,
      readPacket running ([(16 * kind + channel.toNat).toUInt8, note.toNat.toUInt8,
        velocity.toNat.toUInt8] ++ rest) = some (.voice status [note', velocity'], rest) ∧
      status.toNat / 16 = kind ∧ (status.toNat % 16 : Nat) = channel ∧ note'.toNat = note ∧
      velocity'.toNat = velocity := by
  have hstatus : (16 * kind + channel.toNat).toUInt8.toNat = 16 * kind + channel.toNat :=
    toNat_toUInt8 (by omega)
  have hnote' : note.toNat.toUInt8.toNat = note.toNat := toNat_toUInt8 (by omega)
  have hvelocity' : velocity.toNat.toUInt8.toNat = velocity.toNat := toNat_toUInt8 (by omega)
  generalize (16 * kind + channel.toNat).toUInt8 = status at *
  generalize note.toNat.toUInt8 = first at *
  generalize velocity.toNat.toUInt8 = second at *
  have hsize : voiceSize status = [first, second].length := if_neg (by omega)
  have hdata : ([first, second].all fun byte => byte.toNat < 0x80) = true := by
    simp only [List.all_cons, List.all_nil, Bool.and_true, Bool.and_eq_true, decide_eq_true_eq]
    omega
  refine ⟨status, first, second, ?_, by omega, by omega, by omega, by omega⟩
  rw [List.cons_append, readPacket, if_neg (by omega), if_pos (by omega), readVoice, hsize,
    readBytes_append, Option.bind_some]
  exact if_pos hdata

/-- **A message is read back**, one case for each kind. -/
theorem readPacket_body {message : Message} {body : List UInt8} (running : Option UInt8)
    (hrange : message.InRange) (h : message.body = .ok body) (rest : List UInt8) :
    ∃ packet, readPacket running (body ++ rest) = some (packet, rest) ∧
      packet.message? message.time.toNat = some message := by
  cases message with
  | trackName name time =>
    have htime : (time.toNat : Int) = time := Int.toNat_of_nonneg hrange
    simp only [Message.body] at h
    cases hname : Text.Latin.encode name with
    | error fault =>
      rw [hname] at h
      cases h
    | ok content =>
      rw [hname] at h
      cases h
      refine ⟨_, readPacket_metaBytes running _ _ rest, ?_⟩
      rw [Message.time, Packet.message?, if_pos rfl, Text.Latin.decode_encode hname, htime]
  | setTempo tempo time =>
    cases h
    obtain ⟨hlow, hhigh, htime⟩ := hrange
    have hfits : tempo.toNat < 256 ^ 3 := by omega
    have hnumber := Order.greatest.number_field hfits
    refine ⟨_, readPacket_metaBytes running _ _ rest, ?_⟩
    rw [Message.time, Packet.message?, if_neg (by decide),
      if_pos ⟨rfl, Order.greatest.length_field 3 _⟩]
    refine congrArg some (congrArg₂ Message.setTempo ?_ (Int.toNat_of_nonneg htime))
    exact (congrArg Nat.cast hnumber).trans (Int.toNat_of_nonneg hlow)
  | noteOn channel note velocity time =>
    cases h
    obtain ⟨hchannel, hchannel', hnote, hnote', hvelocity, hvelocity', htime⟩ := hrange
    obtain ⟨status, first, second, hread, hkind, hchannel, hnote, hvelocity⟩ :=
      readPacket_stroke running (Or.inl rfl) ⟨hchannel, hchannel'⟩ ⟨hnote, hnote'⟩
        ⟨hvelocity, hvelocity'⟩ rest
    refine ⟨_, hread, ?_⟩
    rw [Message.time, Packet.message?, if_pos hkind, hchannel, hnote, hvelocity,
      Int.toNat_of_nonneg htime]
  | noteOff channel note velocity time =>
    cases h
    obtain ⟨hchannel, hchannel', hnote, hnote', hvelocity, hvelocity', htime⟩ := hrange
    obtain ⟨status, first, second, hread, hkind, hchannel, hnote, hvelocity⟩ :=
      readPacket_stroke running (Or.inr rfl) ⟨hchannel, hchannel'⟩ ⟨hnote, hnote'⟩
        ⟨hvelocity, hvelocity'⟩ rest
    refine ⟨_, hread, ?_⟩
    rw [Message.time, Packet.message?, if_neg (by omega), if_pos hkind, hchannel, hnote, hvelocity,
      Int.toNat_of_nonneg htime]
  | endOfTrack time =>
    have htime : (time.toNat : Int) = time := Int.toNat_of_nonneg hrange
    cases h
    refine ⟨_, readPacket_metaBytes running _ _ rest, ?_⟩
    rw [Message.time, Packet.message?, if_neg (by decide), if_neg (by decide), if_pos ⟨rfl, rfl⟩,
      htime]

/-! ## Tracks -/

/-- The messages end where a track ends, and not before. -/
def Ended (messages : List Message) : Prop :=
  ∃ before time, messages = before ++ [.endOfTrack time] ∧
    ∀ message ∈ before, message.isEnd = false

theorem withEnd_of_ended {messages : List Message} (h : Ended messages) :
    withEnd messages = messages := by
  obtain ⟨before, time, rfl, -⟩ := h
  rw [withEnd, if_pos]
  rw [List.any_append, Bool.or_eq_true]
  exact Or.inr rfl

theorem Ended.cons {message : Message} {messages : List Message} (hmessage : message.isEnd = false)
    (h : Ended messages) : Ended (message :: messages) := by
  obtain ⟨before, time, rfl, hbefore⟩ := h
  exact ⟨message :: before, time, rfl, List.forall_mem_cons.mpr ⟨hmessage, hbefore⟩⟩

theorem ended_trackFrom {channel ticksPerBeat last : Int} {position : Float} {notes : List Note}
    {messages : List Message}
    (h : (trackFrom channel ticksPerBeat position last notes).outcome = .ok messages) :
    Ended messages := by
  induction notes generalizing position last messages with
  | nil =>
    obtain ⟨stop, -, h⟩ := Report.outcome_bind_eq_ok.mp h
    cases h
    exact ⟨[], _, rfl, List.forall_mem_nil _⟩
  | cons note rest ih =>
    obtain ⟨start, length, stop, -, -, -, hcases⟩ := trackFrom_cons h
    rcases hcases with ⟨-, hlater⟩ | ⟨-, -, later, hlater, rfl⟩
    · exact ih hlater
    · exact ((ih hlater).cons rfl).cons rfl

theorem ended_track {notes : List Note} {channel ticksPerBeat : Int} {name : String}
    {messages : List Message} (h : (track notes channel name ticksPerBeat).outcome = .ok messages) :
    Ended messages := by
  obtain ⟨body, hbody, h⟩ := Report.outcome_bind_eq_ok.mp h
  have hended := ended_trackFrom hbody
  split at h
  · cases h
    exact hended
  · cases h
    exact hended.cons rfl

/-- **The step.** The bytes of a message in front of others are read as that message. -/
theorem readMessage_append {message : Message} {body : List UInt8} (running : Option UInt8)
    (hrange : message.InRange) (h : message.body = .ok body) (rest : List UInt8) :
    ∃ left, readMessage running (variableLength message.time.toNat ++ body ++ rest) =
      some (message, left, rest) := by
  obtain ⟨packet, hpacket, hmessage⟩ := readPacket_body running hrange h rest
  refine ⟨packet.running?, ?_⟩
  rw [List.append_assoc]
  simp only [readMessage, readNumber_variableLength, hpacket, hmessage, bind, Option.bind, pure]

theorem readTrack_of_readMessage {running left : Option UInt8} {bytes rest : List UInt8}
    {message : Message} (h : readMessage running bytes = some (message, left, rest)) :
    readTrack running bytes =
      if message.isEnd then if rest = [] then some [message] else none
      else (readTrack left rest).map (message :: ·) := by
  rw [readTrack]
  split
  · rename_i hnone
    rw [h] at hnone
    cases hnone
  · rename_i hsome
    rw [h] at hsome
    cases hsome
    rfl

/-- **A track is read back.** -/
theorem readTrack_trackBytes {messages : List Message} {content : List UInt8}
    (running : Option UInt8) (hended : Ended messages)
    (hrange : ∀ message ∈ messages, message.InRange) (h : trackBytes messages = .ok content) :
    readTrack running content = some messages := by
  obtain ⟨before, time, rfl, hbefore⟩ := hended
  induction before generalizing running content with
  | nil =>
    obtain ⟨body, hbody, h⟩ := bind_eq_ok_iff.mp h
    cases h
    obtain ⟨left, hread⟩ :=
      readMessage_append running (hrange _ (List.mem_singleton_self _)) hbody []
    rw [List.nil_append, readTrack_of_readMessage hread]
    rfl
  | cons message later ih =>
    obtain ⟨hnot, hlater⟩ := List.forall_mem_cons.mp hbefore
    rw [List.cons_append, List.forall_mem_cons] at hrange
    obtain ⟨body, hbody, h⟩ := bind_eq_ok_iff.mp h
    obtain ⟨rest, hrest, h⟩ := bind_eq_ok_iff.mp h
    cases h
    obtain ⟨left, hread⟩ := readMessage_append running hrange.1 hbody rest
    rw [readTrack_of_readMessage hread, hnot, if_neg Bool.false_ne_true,
      ih left hlater hrange.2 hrest]
    rfl

/-! ## Files -/

/-- The header of a file with so many tracks. -/
def headChunk (count : Nat) : Chunk :=
  ⟨ascii "MThd", bigEndian 2 1 ++ bigEndian 2 count ++ bigEndian 2 ticksPerBeat.toNat⟩

/-- The chunks of a file with tracks of such contents. -/
def fileChunks (contents : List (List UInt8)) : List Chunk :=
  headChunk contents.length :: contents.map (Chunk.mk (ascii "MTrk"))

/-- The contents are the bytes of the tracks. -/
def Hold (contents : List (List UInt8)) (tracks : List (List Message)) : Prop :=
  List.Forall₂ (fun messages content => trackBytes (withEnd messages) = .ok content) tracks contents

theorem chunk_eq_ok {name : String} {content bytes : List UInt8}
    (h : chunk name content = .ok bytes) :
    content.length < 0x100000000 ∧ bytes = Chunk.bytes .greatest ⟨ascii name, content⟩ := by
  have hsmall := exists_chunk_iff.mp ⟨bytes, h⟩
  refine ⟨hsmall, ?_⟩
  unfold chunk long at h
  rw [if_pos hsmall] at h
  cases h
  rfl

theorem trackChunks_eq {tracks : List (List Message)} (h : (trackChunks tracks).failure? = none) :
    ∃ contents, Hold contents tracks ∧ (∀ content ∈ contents, content.length < 0x100000000) ∧
      (trackChunks tracks).bytes =
        (contents.map (Chunk.mk (ascii "MTrk"))).flatMap (Chunk.bytes .greatest) := by
  induction tracks with
  | nil => exact ⟨[], .nil, List.forall_mem_nil _, rfl⟩
  | cons messages rest ih =>
    rw [trackChunks] at h ⊢
    cases hchunk : trackBytes (withEnd messages) >>= chunk "MTrk" with
    | error error =>
      rw [hchunk] at h
      cases h
    | ok bytes =>
      rw [hchunk] at h
      obtain ⟨content, hcontent, hbytes⟩ := bind_eq_ok_iff.mp hchunk
      obtain ⟨hsmall, rfl⟩ := chunk_eq_ok hbytes
      obtain ⟨contents, hcontents, hsizes, hlater⟩ := ih h
      refine ⟨content :: contents, .cons hcontent hcontents,
        List.forall_mem_cons.mpr ⟨hsmall, hsizes⟩, ?_⟩
      rw [List.map_cons, List.flatMap_cons, ← hlater]

/-- What is written of tracks, where all of it can be written: a header and a chunk for each. -/
theorem encode_eq {tracks : List (List Message)} (h : (encode tracks).failure? = none) :
    ∃ contents, Hold contents tracks ∧ contents.length < 0x8000 ∧
      (∀ content ∈ contents, content.length < 0x100000000) ∧
      (encode tracks).bytes = (fileChunks contents).flatMap (Chunk.bytes .greatest) := by
  have hcount := (failure_encode_iff.mp h).1
  unfold encode at h ⊢
  cases hheader : header tracks.length with
  | error error =>
    rw [hheader] at h
    cases h
  | ok head =>
    rw [hheader] at h
    obtain ⟨contents, hcontents, hsizes, hchunks⟩ := trackChunks_eq h
    obtain ⟨count, hshort, hhead⟩ := bind_eq_ok_iff.mp hheader
    rw [signedShort, if_pos hcount] at hshort
    cases hshort
    obtain ⟨-, rfl⟩ := chunk_eq_ok hhead
    rw [hcontents.length_eq] at hcount
    refine ⟨contents, hcontents, hcount, hsizes, ?_⟩
    rw [fileChunks, headChunk, List.flatMap_cons, ← hchunks, ← hcontents.length_eq]

/-- The chunks of a file are what its bytes are cut into. -/
theorem readChunks_fileChunks {contents : List (List UInt8)}
    (h : ∀ content ∈ contents, content.length < 0x100000000) :
    readChunks .greatest 1 ((fileChunks contents).flatMap (Chunk.bytes .greatest)) =
      some (fileChunks contents) := by
  have hhead : (headChunk contents.length).Fits := ⟨rfl, (by decide : 6 < 0x100000000)⟩
  have hfits : ∀ chunk ∈ fileChunks contents, chunk.Fits ∧ chunk.content.length % 1 = 0 := by
    rw [fileChunks, List.forall_mem_cons, List.forall_mem_map]
    exact ⟨⟨hhead, Nat.mod_one _⟩, fun content hcontent => ⟨⟨rfl, h content hcontent⟩, Nat.mod_one _⟩⟩
  rw [← List.append_nil (List.flatMap _ _), readChunks_flatMap hfits, readChunks_nil,
    Option.map_some, List.append_nil]

theorem mapM_readTrack {tracks : List (List Message)} {contents : List (List UInt8)}
    (hended : ∀ messages ∈ tracks, Ended (withEnd messages))
    (hrange : ∀ messages ∈ tracks, ∀ message ∈ withEnd messages, message.InRange)
    (h : Hold contents tracks) :
    (contents.map (Chunk.mk (ascii "MTrk"))).mapM (fun chunk => readTrack none chunk.content) =
      some (tracks.map withEnd) := by
  induction h with
  | nil => rfl
  | cons hcontent hrest ih =>
    rw [List.forall_mem_cons] at hended hrange
    rw [List.map_cons, List.mapM_cons, readTrack_trackBytes none hended.1 hrange.1 hcontent,
      ih hended.2 hrange.2]
    rfl

/-- **A file is read back.** -/
theorem decode_fileChunks {tracks : List (List Message)} {contents : List (List UInt8)}
    (hcount : contents.length < 0x8000)
    (hsizes : ∀ content ∈ contents, content.length < 0x100000000)
    (hended : ∀ messages ∈ tracks, Ended (withEnd messages))
    (hrange : ∀ messages ∈ tracks, ∀ message ∈ withEnd messages, message.InRange)
    (h : Hold contents tracks) :
    decode ((fileChunks contents).flatMap (Chunk.bytes .greatest)) =
      some ⟨1, 480, tracks.map withEnd⟩ := by
  have hfield : Order.greatest.number (((headChunk contents.length).content.drop 2).take 2) =
      (contents.map (Chunk.mk (ascii "MTrk"))).length := by
    rw [List.length_map]
    exact Order.greatest.number_field (show contents.length < 256 ^ 2 by omega)
  have hnames : ∀ chunk ∈ contents.map (Chunk.mk (ascii "MTrk")), chunk.name = ascii "MTrk" :=
    List.forall_mem_map.mpr fun content _ => rfl
  rw [decode, readChunks_fileChunks hsizes, fileChunks]
  simp only
  rw [if_pos ⟨rfl, rfl, hfield, hnames⟩, mapM_readTrack hended hrange h]
  rfl

/-! ## Scores -/

theorem inRange_withEnd {messages : List Message} (h : ∀ message ∈ messages, message.InRange) :
    ∀ message ∈ withEnd messages, message.InRange := by
  unfold withEnd
  split
  · exact h
  · exact List.forall_mem_append.mpr ⟨h, List.forall_mem_singleton.mpr le_rfl⟩

/-- The channels of a score become tracks in their order, and take the MIDI channels in turn. -/
theorem getElem?_channelTracks {ticksPerBeat : Int} {index : Nat} {channels : List Channel}
    {parts : List (List Message)}
    (h : (channelTracks ticksPerBeat index channels).outcome = .ok parts) :
    parts.length = channels.length ∧ ∀ (j : Nat) (channel : Channel),
      channels[j]? = some channel → ∃ messages, parts[j]? = some messages ∧
        (track channel.notes.toList ((index + j) % 16 : Nat) channel.name ticksPerBeat).outcome =
          .ok messages := by
  induction channels generalizing index parts with
  | nil =>
    cases h
    exact ⟨rfl, fun j channel hchannel => by cases hchannel⟩
  | cons head rest ih =>
    obtain ⟨messages, hmessages, h⟩ := Report.outcome_bind_eq_ok.mp h
    obtain ⟨later, hlater, h⟩ := Report.outcome_bind_eq_ok.mp h
    cases h
    obtain ⟨hlength, hget⟩ := ih hlater
    refine ⟨congrArg Nat.succ hlength, fun j channel hchannel => ?_⟩
    cases j with
    | zero =>
      cases hchannel
      exact ⟨messages, rfl, hmessages⟩
    | succ j =>
      rw [List.getElem?_cons_succ] at hchannel ⊢
      rw [show index + (j + 1) = index + 1 + j by omega]
      exact hget j channel hchannel

/-- **A saved score is read back.** The bytes that are written are chunks whose sizes are those of
their contents; as a file they are of type 1 with 480 ticks in a quarter note, and hold the tempo of
the score and then the tracks of its channels, in order, as they are. -/
theorem decode_saved {storage : Storage} {path : String} {score : Score}
    (h : (Saved.midi storage path score).report.outcome = .ok ()) :
    ∃ (value : Int) (parts : List (List Message)) (bytes : List UInt8) (chunks : List Chunk),
      storage.write path bytes = .ok (Saved.midi storage path score).storage ∧
      bytes = chunks.flatMap (Chunk.bytes .greatest) ∧
      readChunks .greatest 1 bytes = some chunks ∧
      tempo score.tempo.beats = .ok value ∧ parts.length = score.channels.length ∧
      (∀ (j : Nat) (channel : Channel), score.channels[j]? = some channel →
        ∃ messages, parts[j]? = some messages ∧
          (track channel.notes.toList (j % 16 : Nat) channel.name ticksPerBeat).outcome =
            .ok messages) ∧
      decode bytes = some ⟨1, 480, [.setTempo value 0, .endOfTrack 0] :: parts⟩ := by
  obtain ⟨result, hresult, hsaved, hwrite⟩ := Saved.midi_eq_ok h
  have hrange := fun messages hmessages => inRange_withEnd (inRange_tracks hresult messages hmessages)
  obtain ⟨value, hvalue, hresult⟩ := Report.outcome_bind_eq_ok.mp hresult
  obtain ⟨parts, hparts, hresult⟩ := Report.outcome_bind_eq_ok.mp hresult
  cases hresult
  obtain ⟨hlength, hget⟩ := getElem?_channelTracks hparts
  have hended : ∀ messages ∈ parts, Ended messages := by
    intro messages hmessages
    obtain ⟨j, hj, rfl⟩ := List.mem_iff_getElem.mp hmessages
    obtain ⟨messages, hsome, htrack⟩ := hget j _ (List.getElem?_eq_getElem (hlength ▸ hj))
    rw [List.getElem?_eq_getElem hj] at hsome
    cases hsome
    exact ended_track htrack
  have htempo : Ended (withEnd [.setTempo value 0]) :=
    ⟨[.setTempo value 0], 0, rfl, List.forall_mem_singleton.mpr rfl⟩
  -- The tracks of channels have their ends already.
  have hwithEnd : parts.map withEnd = parts :=
    (List.map_congr_left fun messages hmessages => withEnd_of_ended (hended messages hmessages)).trans
      (List.map_id' parts)
  obtain ⟨contents, hcontents, hcount, hsizes, hbytes⟩ := encode_eq hsaved
  refine ⟨value, parts, _, fileChunks contents, hwrite, hbytes, ?_, hvalue, hlength, ?_, ?_⟩
  · rw [hbytes, readChunks_fileChunks hsizes]
  · simpa only [Nat.zero_add] using hget
  · rw [hbytes, decode_fileChunks hcount hsizes ?_ hrange hcontents, List.map_cons, hwithEnd]
    · rfl
    · refine List.forall_mem_cons.mpr ⟨htempo, fun messages hmessages => ?_⟩
      rw [withEnd_of_ended (hended messages hmessages)]
      exact hended messages hmessages

/-- A named channel whose first tone waits for 1920 ticks, which is a time of two bytes. -/
theorem decode_saved_late :
    let settings : Settings := ⟨.whole 8, .whole 0, .whole 0, .whole 0, rfl, rfl, rfl, rfl⟩
    let score : Score := ⟨.standard, [⟨"é", #[⟨0, 1, 4, 0, "sin", true, by decide, fun _ => rfl⟩,
      ⟨0, 4, 4, 255, "sin", false, by decide, by decide⟩]⟩], settings⟩
    (Saved.midi (.empty []) "a" score).report.outcome = .ok () ∧
      ∃ bytes, (Storage.empty []).write "a" bytes = .ok (Saved.midi (.empty []) "a" score).storage ∧
        decode bytes = some ⟨1, 480, [[.setTempo 600000 0, .endOfTrack 0], [.trackName "é" 0,
          .noteOn 0 60 127 1920, .noteOff 0 60 0 480, .endOfTrack 0]]⟩ := by
  intro settings score
  have htracks : (tracks score ticksPerBeat).outcome = .ok [[.setTempo 600000 0],
      [.trackName "é" 0, .noteOn 0 60 127 1920, .noteOff 0 60 0 480, .endOfTrack 0]] :=
    toOption_eq_some_iff.mp (by decide +kernel)
  obtain ⟨next, hwrite⟩ := isSome_toOption_iff.mp
    (show ((Storage.empty []).write "a" []).toOption.isSome = true by cbv)
  obtain ⟨next, hwrite⟩ := Storage.exists_write hwrite (encode [[.setTempo 600000 0],
    [.trackName "é" 0, .noteOn 0 60 127 1920, .noteOff 0 60 0 480, .endOfTrack 0]]).bytes
  have hsaved := (Saved.midi_eq htracks hwrite).2.mpr (by cbv)
  obtain ⟨value, parts, bytes, chunks, hbytes, -, -, hvalue, hlength, hparts, hdecode⟩ :=
    decode_saved hsaved
  have htempo : tempo score.tempo.beats = .ok 600000 :=
    toOption_eq_some_iff.mp (by decide +kernel)
  obtain rfl : value = 600000 := Except.ok.inj (hvalue.symm.trans htempo)
  obtain ⟨messages, hmessages, htrack⟩ := hparts 0 _ rfl
  obtain ⟨part, rfl⟩ := List.length_eq_one_iff.mp hlength
  obtain rfl : part = messages := Option.some.inj hmessages
  have hpart : part = [.trackName "é" 0, .noteOn 0 60 127 1920, .noteOff 0 60 0 480,
      .endOfTrack 0] :=
    Except.ok.inj (htrack.symm.trans (toOption_eq_some_iff.mp (by decide +kernel)))
  rw [hpart] at hdecode
  exact ⟨hsaved, bytes, hbytes, hdecode⟩

end Midi
end Chiptune
