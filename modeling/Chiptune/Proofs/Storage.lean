import Mathlib.Logic.Basic
import Mathlib.Tactic.SplitIfs
import Chiptune.Storage

/-!
# Files that are written

A file that was written can be read under its path, and nothing else is changed: neither what stands
in any other place nor where a path text leads. The last is what lets files be written one after the
other. A path passes through folders only, and where a file is put there was none.
-/

namespace Chiptune
namespace Storage

variable {storage next : Storage} {path other : String} {bytes : List UInt8}
variable {reached place : List String}

/-! ## Putting a file in a place -/

end Storage
end Chiptune
