import Chiptune.Yaml.Node

/-!
# Merging

A mapping takes in the entries of other mappings that it names under a merge key, in front of its
own. What is named may itself merge, and may even be the mapping that merges: an entry is taken out
before what it names is looked at, so every merge happens once. The table of nodes keeps what was
done, and whoever refers to a node finds it merged.
-/

namespace Chiptune
namespace Yaml

/-- Work on a table of nodes. -/
abbrev Merge := StateT (Array Node) (Except Error)

namespace Merge

/-- What a node holds. -/
def content? (place : Nat) : Merge (Option Content) := return ((← get)[place]?).map (·.content)

/-- Changes a node. -/
def change (place : Nat) (f : Node → Node) : Merge Unit := modify fun nodes => nodes.modify place f

/-- Whether the node at a place has a tag. -/
def hasTag (tag : Tag) (place : Nat) : Merge Bool :=
  return ((← get)[place]?).any fun node => node.tag == tag

/-- The entries of a mapping. -/
def entries (place : Nat) : Merge (List (Nat × Nat)) := do
  match ← content? place with
  | some (.mapping entries) => return entries
  | _ => throw (.yaml .value)

/-- Gives a mapping its entries. -/
def setEntries (place : Nat) (entries : List (Nat × Nat)) : Merge Unit :=
  change place fun node => { node with content := .mapping entries }

/-- Takes the first entry under a merge key out of a mapping and gives what it names. -/
def takeMerge? (place : Nat) : Merge (Option Nat) := do
  let nodes ← get
  let isMerge (entry : Nat × Nat) : Bool := nodes[entry.1]?.any fun node => node.tag == .merge
  let all ← entries place
  match all.find? isMerge with
  | none => return none
  | some (_, source) =>
    setEntries place (all.eraseP isMerge)
    return some source

/-- Makes a text of every key under which a mapping keeps its own value. -/
def settleKeys (place : Nat) : Merge Unit := do
  for (key, _) in ← entries place do
    if ← hasTag .value key then
      change key fun node => { node with tag := .text }

mutual

/-- Merges into a mapping what it names. -/
def mergeAt (place : Nat) : Nat → Merge Unit
  | 0 => throw (.yaml .value)
  | fuel + 1 => do
    let merged ← mergeAll place fuel
    settleKeys place
    if !merged.isEmpty then
      setEntries place (merged ++ (← entries place))

/-- Takes all merge entries out of a mapping, one by one, and gives the entries that they stand
for. -/
def mergeAll (place : Nat) : Nat → Merge (List (Nat × Nat))
  | 0 => throw (.yaml .value)
  | fuel + 1 => do
    match ← takeMerge? place with
    | none => return []
    | some source =>
      let found ← mergedFrom source fuel
      return found ++ (← mergeAll place fuel)

/-- The entries of a mapping that is named under a merge key, or of several, the last of them
first. -/
def mergedFrom (source : Nat) : Nat → Merge (List (Nat × Nat))
  | 0 => throw (.yaml .value)
  | fuel + 1 => do
    match ← content? source with
    | some (.mapping _) =>
      mergeAt source fuel
      entries source
    | some (.sequence items) =>
      let parts ← items.mapM fun item => do
        let _ ← entries item
        mergeAt item fuel
        entries item
      return parts.reverse.flatten
    | _ => throw (.yaml .value)

end

/-- How many entries the mappings of a table have. -/
def entryCount (nodes : Array Node) : Nat :=
  nodes.foldl (fun n node =>
    match node.content with
    | .mapping entries => n + entries.length
    | _ => n) 0

/-- Merges into a mapping what it names. Each merge takes an entry away, so the number of entries
bounds the work. -/
def into (place : Nat) : Merge Unit := do
  mergeAt place (3 * entryCount (← get) + 3)

end Merge
end Yaml
end Chiptune
