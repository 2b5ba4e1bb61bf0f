import Chiptune.Report
import Chiptune.Storage
import Chiptune.Text.Block
import Chiptune.Yaml.Portion
import Chiptune.Yaml.Unfolding

/-!
# Configuration files

A configuration file holds a mapping, or nothing at all. A file that is not there is as good as an
empty one, but worth a warning.
-/

namespace Chiptune
namespace Config

/-- A configuration that says nothing. -/
def empty : Value := .mapping []

/-- The value that the bytes of a configuration file spell. -/
def valueOf (bytes : List UInt8) : Except Error Value :=
  let (blocks, fault?) := Text.blocksOf bytes
  let (text, failure?) := Yaml.readable blocks (fault?.map .undecodable)
  Yaml.read text failure?

/-- The configuration that a value is. -/
def ofValue (path : String) : Value → Except Error Value
  | .null => .ok empty
  | .mapping entries => .ok (.mapping entries)
  | _ => .error (.configNotMapping path)

/-- Loads a configuration file. -/
def load (storage : Storage) (path : String) : Report Value := do
  if storage.contains path then
    let bytes ← storage.read path
    ofValue path (← valueOf bytes)
  else
    Report.tell (.configMissing path)
    return empty

end Config
end Chiptune
