import Chiptune.Bytes
import Chiptune.Rendering.Mix

/-!
# Sample files

An uncompressed RIFF/WAVE file: a header of 44 bytes and the samples behind it. Samples of eight
bits are stored without sign, with silence at 128.

The parameters are checked before a byte is written. A number too large for its field of the
header is noticed only when the header is put together, behind the first four bytes; the file is
then closed, which tries once more.
-/

namespace Chiptune
namespace Wav

/-- How samples are stored. -/
structure Format where
  channels : Int := 1
  bitsPerSample : Int := 8
  rate : Number

/-- The parameters of a file, once they are known to be sound. -/
structure Parameters where
  channels : Nat
  sampleWidth : Nat
  rate : Nat
  deriving DecidableEq, Repr

/-- A sample as it is stored. -/
def toUnsigned (sample : Int8) : UInt8 := sample.toUInt8 + 128

/-- A sample from how it is stored. -/
def ofUnsigned (byte : UInt8) : Int8 := (byte - 128).toInt8

theorem ofUnsigned_toUnsigned (sample : Int8) : ofUnsigned (toUnsigned sample) = sample := by
  simp [ofUnsigned, toUnsigned]

/-- The sample rate in whole Hz, where that is a positive number. -/
def wholeRate? (rate : Number) : Option Nat :=
  if rate.isNotPositive then none
  else
    match rate.round with
    | .ok n => if 0 < n then some n.toNat else none
    | .error _ => none

/-- Checks the parameters of a file, in the order channels, sample width, rate. -/
def Format.parameters (format : Format) : Except Error Parameters :=
  let width := format.bitsPerSample / 8
  if format.channels < 1 then .error (.wav .channels)
  else if width < 1 ∨ 4 < width then .error (.wav .sampleWidth)
  else
    match wholeRate? format.rate with
    | some rate => .ok ⟨format.channels.toNat, width.toNat, rate⟩
    | none => .error (.wav .rate)

/-- The bytes of one frame: a sample of every channel. -/
def Parameters.frameSize (p : Parameters) : Nat := p.channels * p.sampleWidth

/-- The header up to the size of the data, behind the first four bytes. The sizes in it count
whole frames; they are put right afterwards where the data end within a frame. -/
def header (p : Parameters) (size : Nat) : Except Error (List UInt8) := do
  let framed := size / p.frameSize * p.frameSize
  let _ ← Bytes.long (36 + framed)
  let channels ← Bytes.short p.channels
  let rate ← Bytes.long p.rate
  let byteRate ← Bytes.long (p.channels * p.rate * p.sampleWidth)
  let frame ← Bytes.short p.frameSize
  let bits ← Bytes.short (p.sampleWidth * 8)
  let riffSize ← Bytes.long (36 + size)
  let dataSize ← Bytes.long size
  return riffSize ++ Bytes.ascii "WAVEfmt " ++ Bytes.littleEndian 4 16 ++ Bytes.littleEndian 2 1 ++
    channels ++ rate ++ byteRate ++ frame ++ bits ++ Bytes.ascii "data" ++ dataSize

/-- The bytes of a sample file. -/
def encode (format : Format) (samples : List Int8) : Written :=
  match format.parameters with
  | .error error => ⟨[], some error⟩
  | .ok p =>
    match header p samples.length with
    | .ok fields => ⟨Bytes.ascii "RIFF" ++ fields ++ samples.map toUnsigned, none⟩
    | .error error => ⟨Bytes.ascii "RIFFRIFF", some error⟩

/-- The bytes of a sample file with a rendering. -/
def ofRendering (rendering : Rendering) : Written :=
  encode { rate := rendering.sampleRate } rendering.samples.toList

end Wav
end Chiptune
