import Chiptune.Binary64.Dyadic
import Chiptune.Binary64.PowerOfTwo
import Chiptune.Binary64.Ratio
import Chiptune.Binary64.Remainder
import Chiptune.Bytes
import Chiptune.Calendar
import Chiptune.Channel
import Chiptune.Channel.Builder
import Chiptune.Command.Arguments
import Chiptune.Command.Help
import Chiptune.Command.Output
import Chiptune.Command.Run
import Chiptune.Command.Word
import Chiptune.Config
import Chiptune.Decimal.ByteCount
import Chiptune.Decimal.Fixed
import Chiptune.Decimal.Integer
import Chiptune.Decimal.Real
import Chiptune.Decimal.Shortest
import Chiptune.Error
import Chiptune.Event
import Chiptune.Instruction.Kind
import Chiptune.Instruction.Pattern
import Chiptune.Instruction.Schedule
import Chiptune.Main
import Chiptune.Midi.File
import Chiptune.Midi.Message
import Chiptune.Midi.Track
import Chiptune.Note
import Chiptune.Number
import Chiptune.Pitch
import Chiptune.Proofs.Binary64.Amount
import Chiptune.Proofs.Binary64.Between
import Chiptune.Proofs.Binary64.PowerOfTwo
import Chiptune.Proofs.Binary64.Quotient
import Chiptune.Proofs.Binary64.Ratio
import Chiptune.Proofs.Binary64.RelativeError
import Chiptune.Proofs.Binary64.Rounding
import Chiptune.Proofs.Binary64.Sign
import Chiptune.Proofs.Binary64.Sum
import Chiptune.Proofs.Binary64.Value
import Chiptune.Proofs.Bytes
import Chiptune.Proofs.Channel.Context
import Chiptune.Proofs.Channel.Failure
import Chiptune.Proofs.Channel.Meaning
import Chiptune.Proofs.Channel.OneLine
import Chiptune.Proofs.Channel.Refusal
import Chiptune.Proofs.Channel.Run
import Chiptune.Proofs.Channel.Seconds
import Chiptune.Proofs.Channel.Spelling
import Chiptune.Proofs.Channel.Token
import Chiptune.Proofs.Command.Arguments
import Chiptune.Proofs.Command.Run
import Chiptune.Proofs.Decimal.DigitRun
import Chiptune.Proofs.Instruction.Extent
import Chiptune.Proofs.Instruction.Inert
import Chiptune.Proofs.Instruction.Marks
import Chiptune.Proofs.Instruction.Piecewise
import Chiptune.Proofs.Instruction.Priority
import Chiptune.Proofs.Instruction.Reading
import Chiptune.Proofs.Instruction.Resolution
import Chiptune.Proofs.Instruction.Scan
import Chiptune.Proofs.Instruction.Separator
import Chiptune.Proofs.Instruction.Shape
import Chiptune.Proofs.Instruction.TableOrder
import Chiptune.Proofs.Instruction.Writing
import Chiptune.Proofs.Midi.Exact
import Chiptune.Proofs.Midi.Export
import Chiptune.Proofs.Midi.Reader
import Chiptune.Proofs.Midi.RoundTrip
import Chiptune.Proofs.Midi.Timing
import Chiptune.Proofs.NumberSystem
import Chiptune.Proofs.Rendering.Accepted
import Chiptune.Proofs.Rendering.Apart
import Chiptune.Proofs.Rendering.Capacity
import Chiptune.Proofs.Rendering.Comparison
import Chiptune.Proofs.Rendering.Compiled
import Chiptune.Proofs.Rendering.Completion
import Chiptune.Proofs.Rendering.EnvelopeShape
import Chiptune.Proofs.Rendering.ErrorReport
import Chiptune.Proofs.Rendering.Headroom
import Chiptune.Proofs.Rendering.Height
import Chiptune.Proofs.Rendering.NormalForm
import Chiptune.Proofs.Rendering.Saturation
import Chiptune.Proofs.Rendering.Voice
import Chiptune.Proofs.Rendering.Window
import Chiptune.Proofs.Score.Alike
import Chiptune.Proofs.Score.Length
import Chiptune.Proofs.Source.Commented
import Chiptune.Proofs.Source.Comments
import Chiptune.Proofs.Source.Compiled
import Chiptune.Proofs.Source.Concatenation
import Chiptune.Proofs.Source.LineEnds
import Chiptune.Proofs.Source.Names
import Chiptune.Proofs.Source.Outcome
import Chiptune.Proofs.Source.Sections
import Chiptune.Proofs.Source.TempoReaders
import Chiptune.Proofs.Storage
import Chiptune.Proofs.Text.Lines
import Chiptune.Proofs.Text.Utf8
import Chiptune.Proofs.Wav.RoundTrip
import Chiptune.Rendering.Buffer
import Chiptune.Rendering.Envelope
import Chiptune.Rendering.Mix
import Chiptune.Rendering.Sound
import Chiptune.Report
import Chiptune.Score
import Chiptune.Settings
import Chiptune.Source.Comment
import Chiptune.Source.Compile
import Chiptune.Source.Section
import Chiptune.Source.Tempo
import Chiptune.Storage
import Chiptune.Stretch
import Chiptune.Text.Base64
import Chiptune.Text.Blank
import Chiptune.Text.Block
import Chiptune.Text.Cased
import Chiptune.Text.Digit
import Chiptune.Text.Latin
import Chiptune.Text.Lines
import Chiptune.Text.LowerCase
import Chiptune.Text.Point
import Chiptune.Text.Quoted
import Chiptune.Text.Ranges
import Chiptune.Text.Unprintable
import Chiptune.Text.Utf8
import Chiptune.Text.WordCharacter
import Chiptune.Value
import Chiptune.Wav.File
import Chiptune.Waveform
import Chiptune.Yaml.Assembly
import Chiptune.Yaml.Cursor
import Chiptune.Yaml.Implicit
import Chiptune.Yaml.Meaning
import Chiptune.Yaml.Merge
import Chiptune.Yaml.Node
import Chiptune.Yaml.Portion
import Chiptune.Yaml.Property
import Chiptune.Yaml.Scalar
import Chiptune.Yaml.Timestamp
import Chiptune.Yaml.Token
import Chiptune.Yaml.TokenStream
import Chiptune.Yaml.Unfolding
