import Chiptune.Channel.Builder
import Chiptune.Source.Section

/-!
# The tempo of a source

The last tempo directive counts, wherever it stands. The name of a channel is no music: a space
stands in for it and its colon while directives are looked for.
-/

namespace Chiptune
namespace Source

/-- The source with a space in place of every colon and the name behind it. -/
def blankNames (text : List Char) : List Char :=
  header text ++ (sections text).flatMap fun s => ' ' :: s.body

/-- The tempo directives of a source without comments. -/
def tempos (text : List Char) : List Occurrence := Kind.tempo.occurrences (blankNames text)

/-- The tempo that a source without comments sets, if it sets one. -/
def findTempo (text : List Char) : Except Error (Option Int) :=
  match (tempos text).getLast? with
  | none => .ok none
  | some directive => (Builder.readNumber directive.argument.toList).map some

end Source
end Chiptune
