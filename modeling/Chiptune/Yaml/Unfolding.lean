import Chiptune.Yaml.Assembly

/-!
# Values as trees

The collections of a document refer to each other. Written out as a tree, a collection that is
referred to twice stands there twice; one that holds itself is written once, and inside it a value
says how many levels further out it is meant.
-/

namespace Chiptune
namespace Yaml

/-- A value as a tree, and how many levels of what it stands in it refers to. -/
structure Unfolded where
  value : Value
  reach : Nat

/-- Work with the trees at hand that refer to nothing outside of them, by their nodes. -/
abbrev Unfold := StateM (Array (Option Value))

namespace Unfolded

/-- A value that refers to nothing outside of itself. -/
def closed (value : Value) : Unfolded := ⟨value, 0⟩

/-- The levels around a collection that its parts refer to. -/
def reachOf (parts : List Unfolded) : Nat := (parts.map (·.reach)).foldl max 0 - 1

/-- A list of parts. -/
def list (parts : List Unfolded) : Unfolded := ⟨.list (parts.map (·.value)), reachOf parts⟩

/-- A set of parts. -/
def set (parts : List Unfolded) : Unfolded := ⟨.set (parts.map (·.value)), reachOf parts⟩

/-- A mapping of parts. -/
def mapping (parts : List (Unfolded × Unfolded)) : Unfolded :=
  ⟨.mapping (parts.map fun part => (part.1.value, part.2.value)),
    reachOf (parts.flatMap fun part => [part.1, part.2])⟩

end Unfolded

namespace Unfold

/-- Keeps a tree that refers to nothing outside of it. -/
def keep (place : Nat) (tree : Unfolded) : Unfold Unfolded := do
  if tree.reach == 0 then
    modify fun trees => trees.setIfInBounds place (some tree.value)
  return tree

/-- The tree of what has become of a node. `around` has the nodes of the collections in which it
stands, the innermost first; a pair in a list is a level without a node. -/
def tree (made : Array (Option Made)) : Nat → List (Option Nat) → Nat → Unfold Unfolded
  | 0, _, _ => return .closed .null
  | fuel + 1, around, place => do
    match around.findIdx? (· == some place) with
    | some levels => return ⟨.enclosing levels, levels + 1⟩
    | none =>
      match ((← get)[place]?).join with
      | some value => return .closed value
      | none =>
        let inner := some place :: around
        match (made[place]?).join with
        | none => return .closed .null
        | some (.leaf value _) => return .closed value
        | some (.list items) => keep place (.list (← items.mapM (tree made fuel inner)))
        | some (.set members) => keep place (.set (← members.mapM (tree made fuel inner)))
        | some (.mapping entries) =>
          let parts ← entries.mapM fun entry => do
            return (← tree made fuel inner entry.1, ← tree made fuel inner entry.2)
          keep place (.mapping parts)
        | some (.pairs entries) =>
          let parts ← entries.mapM fun entry => do
            let key ← tree made fuel (none :: inner) entry.1
            return Unfolded.list [key, ← tree made fuel (none :: inner) entry.2]
          keep place (.list parts)

end Unfold

/-- The value of a document. The collections around a value are all different, so there are no more
levels than nodes. -/
def Document.value (document : Document) : Except Error Value := do
  let made ← document.assemble
  let work := Unfold.tree made (made.size + 1) [] document.root
  return (work.run (Array.replicate made.size none)).1.value

/-- Reads the value of a text that may be spoilt behind its end; nothing where it has no
document. -/
def read (text : List Char) (failure? : Option Error) : Except Error Value := do
  match ← Document.ofTokens (TokenStream.ofText text failure?) with
  | some document => document.value
  | none => return .null

end Yaml
end Chiptune
