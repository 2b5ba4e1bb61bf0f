import Chiptune.Calendar
import Chiptune.Decimal.ByteCount
import Chiptune.Decimal.Integer
import Chiptune.Text.Latin
import Chiptune.Text.Quoted
import Chiptune.Text.Utf8

/-!
# Errors

Everything that can be refused, as its cause. `Error.message` has the wording of each; nothing
else in the library looks at a wording.
-/

namespace Chiptune

/-- Arithmetic without an answer. -/
inductive Arithmetic where
  /-- A division of floats by zero. -/
  | divisionByZero
  /-- A whole number past the greatest float. -/
  | integerTooLarge
  /-- A quotient of whole numbers past the greatest float. -/
  | quotientTooLarge
  /-- A power past the greatest float. -/
  | powerTooLarge
  /-- A not-a-number where a whole number is wanted. -/
  | nanToInteger
  /-- An infinity where a whole number is wanted. -/
  | infinityToInteger
  deriving DecidableEq, Repr

/-- What a buffer holds in each of its places. -/
inductive Cell where
  /-- A whole number of 32 bits. -/
  | sample
  | float
  deriving DecidableEq, Repr

/-- The number of bytes of a place. -/
def Cell.size : Cell → Nat
  | sample => 4
  | float => 8

/-- A buffer that cannot be had. -/
inductive BufferFault where
  | negative
  | dimension
  | bytes
  /-- More places than floats can number. -/
  | range
  | memory (count : Nat) (cell : Cell)
  deriving DecidableEq, Repr

/-- What a sample file cannot do without. -/
inductive WavParameter where
  | channels
  | sampleWidth
  | rate
  deriving DecidableEq, Repr

/-- A number that does not fit its field of a binary file. -/
inductive FieldFault where
  /-- Four bytes, without sign. -/
  | long
  /-- Two bytes, without sign. -/
  | short
  /-- Two bytes, with sign. -/
  | signedShort
  /-- Too large for any field. -/
  | argument
  deriving DecidableEq, Repr

/-- A path that cannot be used. -/
inductive PathFault where
  | missing
  | notDirectory
  | isDirectory
  | nameTooLong
  deriving DecidableEq, Repr

/-- A stage at which a configuration file stops being one. -/
inductive YamlFault where
  /-- A character that may not occur. -/
  | character
  /-- Characters that form no token. -/
  | token
  /-- Tokens that form no document. -/
  | document
  /-- References between nodes, or documents, that do not add up. -/
  | composition
  /-- A node without a value. -/
  | value
  deriving DecidableEq, Repr

/-- Why an operation was refused. -/
inductive Error where
  /-- A note token that spells no note. -/
  | noteName (name : String)
  /-- A scale index outside the twelve. -/
  | scaleIndex (index : Int)
  /-- A duration below one. -/
  | duration (duration : Int)
  /-- A timbre without a generator; the registered ones, sorted. -/
  | unknownTimbre (timbre : String) (registered : List String)
  /-- An octave whose frequency is past the greatest float. -/
  | octaveOutOfRange (octave : Int)
  /-- A tempo that is zero or negative. -/
  | tempoNotPositive
  /-- An instruction of no known kind. -/
  | unknownInstruction (kind : String)
  /-- A channel that is not there. -/
  | noSuchChannel
  /-- A sample rate that is zero or negative. -/
  | rateNotPositive
  /-- A negative length of an envelope or of the padding. -/
  | negativeTime
  /-- Synthesis settings that are no mapping. -/
  | settingsNotMapping
  /-- A configuration file that holds no mapping. -/
  | configNotMapping (path : String)
  /-- A text that is read as a whole number in a base, and is none. -/
  | notInteger (base : Nat) (text : List Text.Point) (fault : Decimal.ReadFault)
  /-- A whole number with too many digits to be written. -/
  | tooManyDigits
  /-- A text that is read as a real number, and is none. -/
  | notReal (text : List Text.Point)
  /-- A text that is read as a truth value, and is none. -/
  | notFlag (text : List Text.Point)
  /-- A number without a first character. -/
  | emptyNumber
  /-- A number past the last code point. -/
  | codePoint
  /-- A number that is too large to be looked at as a code point. -/
  | codeWord
  /-- Numbers that make no day or no moment. -/
  | calendar (cause : CalendarFault)
  | arithmetic (cause : Arithmetic)
  | buffer (cause : BufferFault)
  /-- A MIDI channel outside the sixteen. -/
  | midiChannel
  /-- A MIDI tempo that does not fit its three bytes. -/
  | midiTempo
  | wav (missing : WavParameter)
  | field (cause : FieldFault)
  | path (cause : PathFault) (path : String)
  /-- A path with a null character in it. -/
  | nullInPath
  /-- A path with halves of surrogate pairs in it. -/
  | unencodablePath (path : List Text.Point)
  | undecodable (fault : Text.Utf8.Fault)
  | unencodable (fault : Text.Latin.Fault)
  | yaml (cause : YamlFault)
  /-- Something that holds itself, followed to its end. -/
  | endless
  /-- A value of a kind that the operation does not take. -/
  | wrongKind
  /-- A value that has no such part. -/
  | noSuchPart
  deriving Repr

namespace Arithmetic

/-- The wording of a failed computation. -/
def message : Arithmetic → String
  | divisionByZero => "float division by zero"
  | integerTooLarge => "int too large to convert to float"
  | quotientTooLarge => "integer division result too large for a float"
  | powerTooLarge => "(34, 'Numerical result out of range')"
  | nanToInteger => "cannot convert float NaN to integer"
  | infinityToInteger => "cannot convert float infinity to integer"

end Arithmetic

/-- The name of what a buffer holds. -/
def Cell.name : Cell → String
  | sample => "int32"
  | float => "float64"

namespace BufferFault

/-- The wording of a buffer that cannot be had. -/
def message : BufferFault → String
  | negative => "negative dimensions are not allowed"
  | dimension => "Maximum allowed dimension exceeded"
  | bytes =>
    "array is too big; " ++
      "`arr.size * arr.dtype.itemsize` is larger than the maximum possible size."
  | range => "Maximum allowed size exceeded"
  | memory count cell =>
    "Unable to allocate " ++ Decimal.byteCount (cell.size * count) ++
      " for an array with shape (" ++ toString count ++ ",) and data type " ++ cell.name

end BufferFault

namespace FieldFault

/-- The wording of a number that does not fit. -/
def message : FieldFault → String
  | long => "'L' format requires 0 <= number <= 4294967295"
  | short => "ushort format requires 0 <= number <= 65535"
  | signedShort => "'h' format requires -32768 <= number <= 32767"
  | argument => "argument out of range"

end FieldFault

/-- The wording of a missing parameter of a sample file. -/
def WavParameter.message : WavParameter → String
  | channels => "# channels not specified"
  | sampleWidth => "sample width not specified"
  | rate => "sampling rate not specified"

/-- The wording of a path that cannot be used. -/
def PathFault.message : PathFault → String
  | missing => "[Errno 2] No such file or directory"
  | notDirectory => "[Errno 20] Not a directory"
  | isDirectory => "[Errno 21] Is a directory"
  | nameTooLong => "[Errno 36] File name too long"

/-- A length of time in days and seconds, the days counted down for one that is negative. -/
def lengthText (minutes : Int) : String :=
  let days := minutes.fdiv 1440
  let seconds := 60 * minutes.fmod 1440
  let rest := if seconds = 0 then [] else ["seconds=" ++ toString seconds]
  "datetime.timedelta(" ++ ", ".intercalate (("days=" ++ toString days) :: rest) ++ ")"

/-- The wording of numbers that make no day or no moment. -/
def CalendarFault.message : CalendarFault → String
  | year n => "year " ++ toString n ++ " is out of range"
  | month => "month must be in 1..12"
  | day => "day is out of range for month"
  | hour => "hour must be in 0..23"
  | minute => "minute must be in 0..59"
  | second => "second must be in 0..59"
  | offset minutes =>
    "offset must be a timedelta strictly between -timedelta(hours=24) and " ++
      "timedelta(hours=24), not " ++ lengthText minutes ++ "."

/-- The wording of a text that is no whole number. -/
def Decimal.ReadFault.message (base : Nat) (text : List Text.Point) : Decimal.ReadFault → String
  | malformed =>
    "invalid literal for int() with base " ++ toString base ++ ": " ++ Text.quotedUpTo 200 text
  | tooLong digits =>
    "Exceeds the limit (4300 digits) for integer string conversion: value has " ++
      toString digits ++ " digits; use sys.set_int_max_str_digits() to increase the limit"

/-- Where a run of items stands: one position, or the first and the last. -/
def positionText (item : String) (position count : Nat) : String :=
  if count ≤ 1 then item ++ " in position " ++ toString position
  else item ++ "s in position " ++ toString position ++ "-" ++ toString (position + count - 1)

/-- The wording of bytes that are no text. One byte alone is shown. -/
def Text.Utf8.Fault.message (fault : Text.Utf8.Fault) : String :=
  let item :=
    match fault.bytes with
    | [b] => "byte 0x" ++ String.ofList (Text.hexadecimal 2 b.toNat)
    | _ => "byte"
  let reason :=
    match fault.flaw with
    | .startByte => "invalid start byte"
    | .continuationByte => "invalid continuation byte"
    | .endOfData => "unexpected end of data"
  "'utf-8' codec can't decode " ++ positionText item fault.position fault.bytes.length ++ ": " ++
    reason

/-- The wording of a text without a form in Latin-1. One character alone is shown. -/
def Text.Latin.Fault.message (fault : Text.Latin.Fault) : String :=
  let item :=
    match fault.characters with
    | [c] =>
      let point :=
        if c.toNat < 0x10000 then "\\u" ++ String.ofList (Text.hexadecimal 4 c.toNat)
        else "\\U" ++ String.ofList (Text.hexadecimal 8 c.toNat)
      "character '" ++ point ++ "'"
    | _ => "character"
  "'latin-1' codec can't encode " ++ positionText item fault.position fault.characters.length ++
    ": ordinal not in range(256)"

/-- The wording of a path that has no form in UTF-8. One half alone is shown. -/
def unencodablePathMessage (path : List Text.Point) : String :=
  let isHalf := fun point : Text.Point => point.char?.isNone
  let broken := (path.dropWhile fun point => !isHalf point).takeWhile isHalf
  let item :=
    match broken with
    | [.half code] => "character '\\u" ++ String.ofList (Text.hexadecimal 4 code.toNat) ++ "'"
    | _ => "character"
  "'utf-8' codec can't encode " ++
    positionText item (path.takeWhile fun point => !isHalf point).length broken.length ++
    ": surrogates not allowed"

namespace Error

/-- The wording of a refusal. A wrong kind of value and a broken configuration file have none of
their own. -/
def message : Error → String
  | .noteName name => "Invalid note name: " ++ Text.quoted name
  | .scaleIndex index => "Scale index must be 0-11, got " ++ toString index
  | .duration denominator => "Duration must be at least 1, got " ++ toString denominator
  | .unknownTimbre timbre registered =>
    "Unknown timbre " ++ Text.quoted timbre ++ " (available: " ++ ", ".intercalate registered ++ ")"
  | .octaveOutOfRange octave => "Octave " ++ toString octave ++ " is out of range"
  | .tempoNotPositive => "BPM must be positive"
  | .unknownInstruction kind => "Unknown action kind: " ++ Text.quoted kind
  | .noSuchChannel => "list index out of range"
  | .rateNotPositive => "sample_rate must be positive"
  | .negativeTime => "attack, decay and padding must not be negative"
  | .settingsNotMapping => "The 'synth' config section must be a mapping"
  | .configNotMapping place => "Config file " ++ place ++ " must contain a mapping"
  | .notInteger base text fault => fault.message base text
  | .tooManyDigits =>
    "Exceeds the limit (4300 digits) for integer string conversion; " ++
      "use sys.set_int_max_str_digits() to increase the limit"
  | .notReal text => "could not convert string to float: " ++ Text.quotedPoints text
  | .notFlag text => Text.quotedPoints text
  | .emptyNumber => "string index out of range"
  | .codePoint => "chr() arg not in range(0x110000)"
  | .codeWord => "Python int too large to convert to C int"
  | .calendar cause => cause.message
  | .arithmetic cause => cause.message
  | .buffer cause => cause.message
  | .midiChannel => "channel must be in range 0..15"
  | .midiTempo => "attribute must be in range 0..16777215"
  | .wav missing => missing.message
  | .field cause => cause.message
  | .path cause place => cause.message ++ ": " ++ Text.quoted place
  | .nullInPath => "embedded null byte"
  | .unencodablePath place => unencodablePathMessage place
  | .undecodable fault => fault.message
  | .unencodable fault => fault.message
  | .endless => "maximum recursion depth exceeded"
  | .yaml _ | .wrongKind | .noSuchPart => ""

/-- Whether a path is to blame. -/
def isPath : Error → Bool
  | .path .. => true
  | _ => false

/-- Whether a value is to blame: a wording that cannot be read, or a number out of its bounds. What
goes wrong later, in arithmetic or in writing a file, is no such refusal. -/
def isValue : Error → Bool
  | .noteName _ | .scaleIndex _ | .duration _ | .octaveOutOfRange _ | .tempoNotPositive
  | .unknownInstruction _ | .rateNotPositive | .negativeTime | .settingsNotMapping
  | .configNotMapping _ | .notInteger .. | .tooManyDigits | .notReal _ | .codePoint
  | .calendar _ | .arithmetic .nanToInteger | .midiChannel | .midiTempo | .nullInPath
  | .unencodablePath _ | .undecodable _ | .unencodable _ => true
  | .buffer (.memory ..) => false
  | .buffer _ => true
  | _ => false

/-- Refuses, unless a number in the wording has too many digits to be written: then that is the
refusal. -/
def stating (n : Int) (error : Error) : Error :=
  if Decimal.isWritable n then error else tooManyDigits

end Error

/-- Work in two parts succeeds exactly where both parts do. -/
theorem bind_eq_ok_iff {α β : Type} {x : Except Error α} {f : α → Except Error β} {b : β} :
    (x >>= f) = .ok b ↔ ∃ a, x = .ok a ∧ f a = .ok b := by
  cases x with
  | ok a => simp [bind, Except.bind]
  | error error => simp [bind, Except.bind]

/-- What comes of some work can be asked without a look at its errors. -/
theorem toOption_eq_some_iff {α : Type} {x : Except Error α} {a : α} :
    x.toOption = some a ↔ x = .ok a := by
  cases x <;> simp [Except.toOption]

theorem isSome_toOption_iff {α : Type} {x : Except Error α} :
    x.toOption.isSome = true ↔ ∃ a, x = .ok a := by
  cases x <;> simp [Except.toOption]

end Chiptune
