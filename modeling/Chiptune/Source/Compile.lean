import Chiptune.Score
import Chiptune.Source.Comment
import Chiptune.Source.Tempo
import Chiptune.Storage

/-!
# Compiling a source

Comments are removed first; then the tempo of the whole piece is looked for, and every section
becomes a channel. The first fault ends the work.
-/

namespace Chiptune
namespace Source

/-- Compiles sections in order, each to a channel behind those that are there. -/
def addSections (tempo : Tempo) (channels : Array Channel) :
    List Section → Report (Array Channel)
  | [] => pure channels
  | s :: rest => do
    let name := String.ofList s.name
    let channel ← Channel.build Kind.table name s.body
    let seconds ← channel.seconds tempo.beats
    Report.tell (.channelCompiled name channel.notes.size seconds)
    addSections tempo (channels.push channel) rest

/-- Compiles a source without comments. -/
def compileStripped (settings : Settings) (text : List Char) : Report Score := do
  let start ←
    match ← findTempo text with
    | none => pure (Score.empty settings)
    | some beats => (Score.empty settings).setTempo (.whole beats)
  let channels ← addSections start.tempo #[] (sections text)
  let score := { start with channels := channels.toList }
  if score.channels.isEmpty then
    Report.tell .noChannels
  return score

/-- Compiles a source. -/
def compile (settings : Settings) (text : List Char) : Report Score :=
  compileStripped settings (stripComments text)

/-- The text of a source file. A carriage return ends a line as a line feed does. -/
def ofBytes (bytes : List UInt8) : Except Error (List Char) :=
  match Text.Utf8.decode bytes with
  | .ok text => .ok (Text.normalizeNewlines text)
  | .error fault => .error (.undecodable fault)

/-- Compiles a source file. -/
def compileFile (settings : Settings) (storage : Storage) (path : String) : Report Score := do
  let bytes ← storage.read path
  compile settings (← ofBytes bytes)

end Source
end Chiptune
