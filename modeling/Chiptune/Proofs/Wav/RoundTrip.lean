import Chiptune.Command.Output
import Chiptune.Proofs.Binary64.Ratio
import Chiptune.Proofs.Bytes
import Chiptune.Proofs.Decimal.DigitRun

/-!
# Sample files read back

A reader of sample files, as RIFF/WAVE describes them and not as they are written here: the file is
one chunk, which holds a form name and a row of chunks, and the format and the samples are found in
that row by their names. Of the formats it knows only uncompressed mono samples of eight bits.

A rendering with a whole sample rate of 32 bits is written as such a file (`encode_eq`), and is read
back with its sample rate and its samples (`decode_ofRendering`).
-/

namespace Chiptune
namespace Wav

open Bytes

/-! ## The reader -/

/-- What a file sounds like: one channel, with silence at zero. -/
structure Sound where
  rate : Nat
  samples : List Int
  deriving DecidableEq, Repr

/-- The number that stands at a place. -/
def fieldAt (bytes : List UInt8) (place width : Nat) : Nat :=
  Order.least.number ((bytes.drop place).take width)

/-- The row of chunks that a file holds. -/
def readForm (bytes : List UInt8) : Option (List Chunk) :=
  match readChunks .least 2 bytes with
  | some [⟨name, content⟩] =>
    if name = ascii "RIFF" ∧ content.take 4 = ascii "WAVE" then
      readChunks .least 2 (content.drop 4)
    else none
  | _ => none

/-- What the first chunk of a name holds. -/
def content? (name : String) (chunks : List Chunk) : Option (List UInt8) :=
  (chunks.find? fun chunk => chunk.name == ascii name).map Chunk.content

/-- Whether a format is that of uncompressed mono samples of eight bits. The bytes in a second and in
a frame have to agree with it. -/
def isPlain (format : List UInt8) : Bool :=
  fieldAt format 0 2 == 1 && fieldAt format 2 2 == 1 && fieldAt format 14 2 == 8 &&
    fieldAt format 12 2 == 1 && fieldAt format 8 4 == fieldAt format 4 4

/-- Reads a file. -/
def decode (bytes : List UInt8) : Option Sound := do
  let chunks ← readForm bytes
  let format ← content? "fmt " chunks
  let data ← content? "data" chunks
  if isPlain format then
    some ⟨fieldAt format 4 4, data.map fun byte => (byte.toNat : Int) - 128⟩
  else none

/-! ## Samples -/

/-- A stored sample is 128 above the sample. -/
theorem toNat_toUnsigned (sample : Int8) :
    ((toUnsigned sample).toNat : Int) = sample.toInt + 128 := by
  have hstored : (toUnsigned sample).toNat = (sample.toBitVec.toNat + 128) % 256 := rfl
  have hvalue : sample.toInt = sample.toBitVec.toInt := rfl
  have hbound := sample.toBitVec.isLt
  rw [hstored, hvalue, BitVec.toInt_eq_toNat_cond]
  split <;> omega

theorem map_toUnsigned (samples : List Int8) :
    (samples.map toUnsigned).map (fun byte => (byte.toNat : Int) - 128) =
      samples.map Int8.toInt := by
  rw [List.map_map]
  refine List.map_congr_left fun sample _ => ?_
  rw [Function.comp_apply, toNat_toUnsigned]
  omega

/-! ## The file that is written -/

/-- The format of uncompressed mono samples of eight bits. -/
def formatChunk (rate : Nat) : Chunk :=
  ⟨ascii "fmt ", littleEndian 2 1 ++ littleEndian 2 1 ++ littleEndian 4 rate ++
    littleEndian 4 rate ++ littleEndian 2 1 ++ littleEndian 2 8⟩

/-- The samples as they are stored. -/
def dataChunk (samples : List Int8) : Chunk := ⟨ascii "data", samples.map toUnsigned⟩

/-- The row of chunks in a file. -/
def formChunks (rate : Nat) (samples : List Int8) : List Chunk :=
  [formatChunk rate, dataChunk samples]

/-- The one chunk that a file is, around a row of chunks. -/
def formOf (chunks : List Chunk) : Chunk :=
  ⟨ascii "RIFF", ascii "WAVE" ++ chunks.flatMap (Chunk.bytes .least)⟩

theorem length_formOf (rate : Nat) (samples : List Int8) :
    (formOf (formChunks rate samples)).content.length = 36 + samples.length := by
  have hname : (ascii "WAVE").length = 4 := rfl
  have hformat : ((formatChunk rate).bytes .least).length = 24 := rfl
  have hdata : ((dataChunk samples).bytes .least).length = 8 + samples.length := by
    rw [Chunk.length_bytes, dataChunk, List.length_map]
    rfl
  rw [formOf, formChunks, List.flatMap_cons, List.flatMap_singleton, List.length_append,
    List.length_append, hname, hformat, hdata]
  omega

theorem bytes_formOf (rate : Nat) (samples : List Int8) :
    (formOf (formChunks rate samples)).bytes .least =
      ascii "RIFF" ++ littleEndian 4 (36 + samples.length) ++
        (formOf (formChunks rate samples)).content := by
  rw [Chunk.bytes, length_formOf]
  rfl

theorem parameters_whole {rate : Nat} (h : 1 ≤ rate) :
    ({ rate := .whole rate } : Format).parameters = .ok ⟨1, 1, rate⟩ := by
  have hrate : wholeRate? (.whole rate) = some rate := by
    have hpositive : (Number.whole rate).isNotPositive = false := by
      show (decide ((rate : Int) < 0) || (rate : Int) == 0) = false
      rw [Bool.or_eq_false_iff, decide_eq_false_iff_not, beq_eq_false_iff_ne]
      omega
    rw [wholeRate?, hpositive]
    exact if_pos (by omega : (0 : Int) < rate)
  unfold Format.parameters
  simp [hrate]

theorem header_mono {rate size : Nat} (hrate : rate < 0x100000000)
    (hsize : 36 + size < 0x100000000) :
    header ⟨1, 1, rate⟩ size = .ok (littleEndian 4 (36 + size) ++ ascii "WAVE" ++
      (formatChunk rate).bytes .least ++ ascii "data" ++ littleEndian 4 size) := by
  have hlong {n : Nat} (h : n < 0x100000000) : long n = .ok (littleEndian 4 n) := by
    rw [long, if_pos h]
  have hdata : size < 0x100000000 := by omega
  unfold header
  simp only [Parameters.frameSize, Nat.mul_one, Nat.one_mul, Nat.div_one]
  rw [hlong hsize, hlong hrate, hlong hdata]
  rfl

/-- **What is written** for samples at a whole rate: one chunk around the format and the samples. -/
theorem encode_eq {rate : Nat} {samples : List Int8} (hpositive : 1 ≤ rate)
    (hrate : rate < 0x100000000) (hsize : 36 + samples.length < 0x100000000) :
    encode { rate := .whole rate } samples =
      ⟨(formOf (formChunks rate samples)).bytes .least, none⟩ := by
  unfold encode
  rw [parameters_whole hpositive]
  simp only
  rw [header_mono hrate hsize]
  have hdata : (dataChunk samples).bytes .least =
      ascii "data" ++ littleEndian 4 samples.length ++ samples.map toUnsigned := by
    rw [Chunk.bytes, dataChunk, List.length_map]
    rfl
  rw [bytes_formOf]
  simp only [hdata, formOf, formChunks, List.flatMap_cons, List.flatMap_nil, List.append_nil,
    List.append_assoc]

/-! ## The way back -/

/-- The chunks are found as they are, whether the samples fill up pairs of bytes or not. -/
theorem readForm_formChunks {rate : Nat} {samples : List Int8}
    (hsize : 36 + samples.length < 0x100000000) :
    readForm ((formOf (formChunks rate samples)).bytes .least) = some (formChunks rate samples) := by
  have hform : (formOf (formChunks rate samples)).Fits :=
    ⟨rfl, (length_formOf rate samples).trans_lt hsize⟩
  have hformat : (formatChunk rate).Fits := ⟨rfl, (by decide : 16 < 0x100000000)⟩
  have hfilled : (formatChunk rate).content.length % 2 = 0 := (by decide : 16 % 2 = 0)
  have hdata : (dataChunk samples).Fits := by
    refine ⟨rfl, ?_⟩
    rw [dataChunk, List.length_map]
    omega
  have hrow : readChunks .least 2 ((formChunks rate samples).flatMap (Chunk.bytes .least)) =
      some (formChunks rate samples) := by
    rw [formChunks, List.flatMap_cons, readChunks_append hformat, hfilled, List.drop_zero,
      List.flatMap_singleton, readChunks_bytes hdata]
    rfl
  rw [readForm, readChunks_bytes hform]
  exact (if_pos ⟨rfl, rfl⟩).trans hrow

theorem isPlain_formatChunk (rate : Nat) : isPlain (formatChunk rate).content = true := by
  simp only [isPlain, Bool.and_eq_true, beq_iff_eq]
  exact ⟨⟨⟨⟨rfl, rfl⟩, rfl⟩, rfl⟩, rfl⟩

theorem fieldAt_formatChunk {rate : Nat} (h : rate < 0x100000000) :
    fieldAt (formatChunk rate).content 4 4 = rate :=
  number_littleEndian (show rate < 256 ^ 4 from h)

theorem decode_formOf {rate : Nat} {samples : List Int8} (hrate : rate < 0x100000000)
    (hsize : 36 + samples.length < 0x100000000) :
    decode ((formOf (formChunks rate samples)).bytes .least) =
      some ⟨rate, samples.map Int8.toInt⟩ := by
  have hformat : content? "fmt " (formChunks rate samples) = some (formatChunk rate).content := rfl
  have hdata : content? "data" (formChunks rate samples) = some (samples.map toUnsigned) := rfl
  unfold decode
  simp only [readForm_formChunks hsize, hformat, hdata, Option.bind_eq_bind, Option.bind_some]
  rw [if_pos (isPlain_formatChunk rate), fieldAt_formatChunk hrate, map_toUnsigned]

/-- The sizes in the header count what follows each of them. -/
theorem sizes_formOf (rate : Nat) {samples : List Int8}
    (hsize : 36 + samples.length < 0x100000000) :
    ((formOf (formChunks rate samples)).bytes .least).length = 44 + samples.length ∧
      fieldAt ((formOf (formChunks rate samples)).bytes .least) 4 4 = 36 + samples.length ∧
      fieldAt ((formOf (formChunks rate samples)).bytes .least) 40 4 = samples.length := by
  refine ⟨?_, ?_, ?_⟩
  · rw [Chunk.length_bytes, length_formOf]
    exact (Nat.add_assoc 8 36 samples.length).symm
  · rw [bytes_formOf]
    exact number_littleEndian (show 36 + samples.length < 256 ^ 4 from hsize)
  · have hdata : (samples.map toUnsigned).length < 256 ^ 4 := by
      rw [List.length_map]
      omega
    exact (number_littleEndian hdata).trans (List.length_map _)

/-! ## Saving -/

/-- The playing time of samples at a whole rate can be told. -/
theorem exists_duration {size rate : Nat} (hpositive : 1 ≤ rate) (hsize : size < 0x100000000) :
    ∃ seconds, Rendering.duration size (.whole rate) = .ok seconds := by
  have hlimit : 2 ^ 32 ≤ Binary64.floatLimit := Binary64.two_pow_le_floatLimit (by decide)
  have hbelow : size < rate * Binary64.floatLimit :=
    calc size < 1 * 2 ^ 32 := hsize
      _ ≤ rate * Binary64.floatLimit := Nat.mul_le_mul hpositive hlimit
  obtain ⟨seconds, hseconds⟩ :=
    (Binary64.exists_ofQuotient_iff (n := (size : Int)) hpositive).mpr hbelow
  refine ⟨seconds, ?_⟩
  unfold Rendering.duration
  simp only [Number.measure]
  rw [if_neg (by omega), if_neg (by omega), Int.natAbs_natCast, hseconds]

theorem isWritable_wavSaved {path : String} {seconds : Float} {rate : Nat}
    (h : rate < 0x100000000) : (Event.wavSaved path seconds (.whole rate)).isWritable = true := by
  have hdigits : 10 ^ 10 ≤ 10 ^ Decimal.maxDigits := Nat.pow_le_pow_right (by decide) (by decide)
  have hrate : Decimal.isWritable rate = true := by
    rw [Decimal.isWritable_iff, Int.natAbs_natCast]
    omega
  simp [Event.isWritable, Event.numbers, hrate]

/-- What is saved of samples at a whole rate, where the place can be written to. -/
theorem saved_wav {storage next : Storage} {path : String} {rate : Nat} {samples : List Int8}
    (hpositive : 1 ≤ rate) (hrate : rate < 0x100000000)
    (hsize : 36 + samples.length < 0x100000000)
    (hwrite : storage.write path (encode { rate := .whole rate } samples).bytes = .ok next) :
    (Saved.wav storage path { rate := .whole rate } samples).storage = next ∧
      (Saved.wav storage path { rate := .whole rate } samples).report.outcome = .ok () := by
  have hcount : samples.length < 0x100000000 := by omega
  obtain ⟨seconds, hseconds⟩ := exists_duration hpositive hcount
  rw [encode_eq hpositive hrate hsize] at hwrite
  unfold Saved.wav Saved.file
  rw [encode_eq hpositive hrate hsize, hwrite]
  refine ⟨rfl, ?_⟩
  simp only
  rw [Report.outcome_liftM_bind hseconds, Report.outcome_tell, if_pos (isWritable_wavSaved hrate)]

/-- **A saved rendering is read back.** The bytes that are written are a RIFF/WAVE file: one chunk
that holds chunks, all of them with the sizes of what they hold. As a sound they have the sample rate
and the samples of the rendering. -/
theorem decode_ofRendering {rendering : Rendering} {rate : Nat} {storage place : Storage}
    {path : String} (hrate : rendering.sampleRate = .whole rate) (hpositive : 1 ≤ rate)
    (hlimit : rate < 0x100000000) (hsize : 36 + rendering.samples.size < 0x100000000)
    (hpath : storage.write path [] = .ok place) :
    let saved := Saved.wav storage path { rate := rendering.sampleRate } rendering.samples.toList
    ∃ (bytes : List UInt8) (chunks : List Chunk),
      ofRendering rendering = ⟨bytes, none⟩ ∧ saved.report.outcome = .ok () ∧
      storage.write path bytes = .ok saved.storage ∧
      bytes = (formOf chunks).bytes .least ∧ readForm bytes = some chunks ∧
      bytes.length = 44 + rendering.samples.size ∧ fieldAt bytes 4 4 + 8 = bytes.length ∧
      fieldAt bytes 40 4 = rendering.samples.size ∧
      decode bytes = some ⟨rate, rendering.samples.toList.map Int8.toInt⟩ := by
  intro saved
  obtain ⟨samples, hsamples⟩ : ∃ samples, rendering.samples.toList = samples := ⟨_, rfl⟩
  have hcount : rendering.samples.size = samples.length := by
    rw [← hsamples, Array.length_toList]
  rw [hcount] at hsize ⊢
  have hencode := encode_eq hpositive hlimit hsize
  obtain ⟨next, hwrite⟩ := Storage.exists_write hpath (encode { rate := .whole rate } samples).bytes
  obtain ⟨hstorage, houtcome⟩ := saved_wav hpositive hlimit hsize hwrite
  have hsaved : saved = Saved.wav storage path { rate := .whole rate } samples := by
    rw [← hrate, ← hsamples]
  rw [hencode, ← hstorage] at hwrite
  obtain ⟨hlength, hform, hdata⟩ := sizes_formOf rate hsize
  refine ⟨_, formChunks rate samples, ?_, hsaved ▸ houtcome, hsaved ▸ hwrite, rfl,
    readForm_formChunks hsize, hlength, ?_, hdata, ?_⟩
  · rw [ofRendering, hrate, hsamples, hencode]
  · rw [hform, hlength]
    omega
  · rw [hsamples, decode_formOf hlimit hsize]

/-- Three samples, which leave the last pair of bytes open, at the greatest rate. -/
theorem decode_ofRendering_odd :
    let rendering : Rendering := ⟨#[-128, 0, 127], .whole 0xFFFFFFFF, []⟩
    ∃ bytes, ofRendering rendering = ⟨bytes, none⟩ ∧ bytes.length = 47 ∧
      decode bytes = some ⟨0xFFFFFFFF, [-128, 0, 127]⟩ := by
  intro rendering
  obtain ⟨place, hpath⟩ := isSome_toOption_iff.mp
    (show ((Storage.empty []).write "a" []).toOption.isSome = true by cbv)
  have hrate : rendering.sampleRate = .whole (0xFFFFFFFF : Nat) := rfl
  obtain ⟨bytes, -, hbytes, -, -, -, -, hlength, -, -, hdecode⟩ :=
    decode_ofRendering hrate (by decide) (by decide) (by decide) hpath
  exact ⟨bytes, hbytes, hlength, hdecode⟩

end Wav
end Chiptune
