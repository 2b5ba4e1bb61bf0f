import Chiptune.Yaml.Cursor

/-!
# What can be read of a file

The characters of a file are looked through as they come in: the first two blocks at once, and then
block by block, each when it is needed. So a character that may not occur spoils everything from the
start of its block on, and nothing in front of that.
-/

namespace Chiptune
namespace Yaml

/-- What can be read of a file that comes in blocks, and what spoils it behind that. `failure?` is
what spoils it behind its last block. -/
def readable (blocks : List (List Char)) (failure? : Option Error) : List Char × Option Error :=
  let portions : List (List Char) :=
    match blocks with
    | first :: second :: rest => (first ++ second) :: rest
    | few => if failure?.isSome then [] else few
  let sound := portions.takeWhile fun portion => portion.all isAllowed
  if sound.length < portions.length then (sound.flatten, some (.yaml .character))
  else (sound.flatten, failure?)

end Yaml
end Chiptune
