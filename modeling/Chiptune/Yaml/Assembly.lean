import Chiptune.Yaml.Meaning
import Chiptune.Yaml.Merge

/-!
# Putting values together

A text becomes a value as soon as it is met. A collection is put off: it is there at once, but
empty, and is filled when all that was put off before it has been. So it can hold itself, what a
document refers to twice is made once, and of several faults the one that lies least deep shows.

Keys of a mapping are texts with a value of their own; two keys are the same where they are equal as
numbers, as texts, as bytes or as times, and then the first one stays, with the last value. A
not-a-number is equal to nothing, but a key is the same as itself.
-/

namespace Chiptune

namespace Number

/-- Whether two numbers are equal, whole numbers and floats compared exactly. -/
def isEqual (a b : Number) : Bool :=
  let isExactly (x : Float) (n : Int) : Bool :=
    match Binary64.view x with
    | .finite d =>
      match d.exponent with
      | .ofNat e => d.mantissa * Nat.pow 2 e == n
      | .negSucc e => d.mantissa == n * Nat.pow 2 (e + 1)
    | _ => false
  match a.measure, b.measure with
  | .exact m, .exact n => m == n
  | .approximate x, .approximate y => x == y
  | .exact n, .approximate x => isExactly x n
  | .approximate x, .exact n => isExactly x n

end Number

namespace Yaml

/-- Whether two values are equal as keys. -/
def isEqualKey : Value → Value → Bool
  | .null, .null => true
  | .number a, .number b => a.isEqual b
  | .text a, .text b => a == b
  | .brokenText a, .brokenText b => a == b
  | .bytes a, .bytes b => a == b
  | .date a, .date b => a == b
  | .moment a, .moment b => a.isSame b
  | _, _ => false

/-- What has become of a node. Collections refer to the nodes of their parts. -/
inductive Made where
  /-- A text, and the node that first had this very value. -/
  | leaf (value : Value) (origin : Nat)
  | list (items : List Nat)
  | pairs (entries : List (Nat × Nat))
  | set (members : List Nat)
  | mapping (entries : List (Nat × Nat))
  deriving Repr

/-- How far a document has been put together: its nodes, what has become of each, the collections
that are put off, and the node that first named the not-a-number. -/
structure Assembly where
  nodes : Array Node
  made : Array (Option Made)
  waiting : List Nat := []
  nan? : Option Nat := none

/-- Work on the values of a document. -/
abbrev Assemble := StateT Assembly (Except Error)

namespace Assemble

/-- A node without a value. -/
def fail {α : Type} : Assemble α := throw (.yaml .value)

/-- What the node at a place holds. -/
def content (place : Nat) : Assemble Content := do
  match (← get).nodes[place]? with
  | some node => return node.content
  | none => fail

/-- What has become of the node at a place. -/
def made? (place : Nat) : Assemble (Option Made) := return ((← get).made[place]?).join

/-- Says what becomes of the node at a place. -/
def setMade (place : Nat) (made : Made) : Assemble Unit :=
  modify fun a => { a with made := a.made.setIfInBounds place (some made) }

/-! ## Texts -/

/-- The text of a node. A mapping may say it under its own key for that, and never comes to an end
if what it says there is itself. -/
def textOf (nodes : Array Node) : Nat → Nat → Except Error (List Text.Point)
  | 0, _ => .error .endless
  | fuel + 1, place =>
    match nodes[place]? with
    | some ⟨_, .scalar text⟩ => .ok text
    | some ⟨_, .mapping entries⟩ =>
      let isOwn (entry : Nat × Nat) : Bool := nodes[entry.1]?.any fun node => node.tag == .value
      match entries.find? isOwn with
      | some (_, source) => textOf nodes fuel source
      | none => .error (.yaml .value)
    | _ => .error (.yaml .value)

/-- Makes a value of the text of a node. A time has to be written as a text. -/
def makeLeaf (place : Nat) (tag : Tag) : Assemble Unit := do
  let nodes := (← get).nodes
  let text ← textOf nodes (nodes.size + 1) place
  if tag == .timestamp then
    match ← content place with
    | .scalar _ => pure ()
    | _ => throw .wrongKind
  let value ← Meaning.value tag text
  if tag == .real && Meaning.isNaN text then
    let first := (← get).nan?.getD place
    modify fun a => { a with nan? := some first }
    setMade place (.leaf value first)
  else
    setMade place (.leaf value place)

/-! ## Collections -/

/-- Makes an empty collection of a node and puts its content off. -/
def putOff (place : Nat) (empty : Made) : Assemble Unit := do
  setMade place empty
  modify fun a => { a with waiting := place :: a.waiting }

/-- Makes a value of a node, unless it has one. -/
def make (place : Nat) : Assemble Unit := do
  if (← made? place).isNone then
    match (← get).nodes[place]? with
    | none => fail
    | some node =>
      match node.tag with
      | .sequence => putOff place (.list [])
      | .pairs => putOff place (.pairs [])
      | .set => putOff place (.set [])
      | .mapping => putOff place (.mapping [])
      | .merge | .value | .unknown => fail
      | tag => makeLeaf place tag

/-- Whether two nodes have become the same key. -/
def isSameKey (made : Array (Option Made)) (a b : Nat) : Bool :=
  match (made[a]?).join, (made[b]?).join with
  | some (.leaf x origin), some (.leaf y other) => origin == other || isEqualKey x y
  | _, _ => false

/-- Puts an entry into a mapping. -/
def putEntry (made : Array (Option Made)) (key value : Nat) :
    List (Nat × Nat) → List (Nat × Nat)
  | [] => [(key, value)]
  | (old, current) :: rest =>
    if isSameKey made old key then (old, value) :: rest
    else (old, current) :: putEntry made key value rest

/-- Makes the value of a key, which is no collection. -/
def makeKey (place : Nat) : Assemble Unit := do
  make place
  match ← made? place with
  | some (.leaf ..) => return
  | _ => fail

/-- Merges into a mapping what it names, if it names anything, and gives its entries. -/
def mergedEntries (place : Nat) : Assemble (List (Nat × Nat)) := do
  match ← content place with
  | .mapping entries =>
    let nodes := (← get).nodes
    let isSpecial (entry : Nat × Nat) : Bool :=
      nodes[entry.1]?.any fun node => node.tag == .merge || node.tag == .value
    if entries.any isSpecial then
      let work : Merge (List (Nat × Nat)) := do
        Merge.into place
        Merge.entries place
      let (merged, after) ← work.run nodes
      modify fun a => { a with nodes := after }
      return merged
    else
      return entries
  | _ => fail

/-- Makes the entries of a mapping. -/
def makeEntries (place : Nat) : Assemble (List (Nat × Nat)) := do
  let step (before : List (Nat × Nat)) (entry : Nat × Nat) : Assemble (List (Nat × Nat)) := do
    makeKey entry.1
    make entry.2
    return putEntry (← get).made entry.1 entry.2 before
  (← mergedEntries place).foldlM step []

/-- Makes the items of a sequence. -/
def makeItems (place : Nat) : Assemble (List Nat) := do
  match ← content place with
  | .sequence items =>
    for item in items do
      make item
    return items
  | _ => fail

/-- Makes the entries of a sequence of mappings that have one entry each. -/
def makePairs (place : Nat) : Assemble (List (Nat × Nat)) := do
  match ← content place with
  | .sequence items =>
    items.mapM fun item => do
      match ← content item with
      | .mapping [(key, value)] =>
        make key
        make value
        return (key, value)
      | _ => fail
  | _ => fail

/-- Fills a collection that was put off. -/
def fillAt (place : Nat) : Assemble Unit := do
  match ← made? place with
  | some (.list _) => setMade place (.list (← makeItems place))
  | some (.pairs _) => setMade place (.pairs (← makePairs place))
  | some (.set _) => setMade place (.set ((← makeEntries place).map (·.1)))
  | some (.mapping _) => setMade place (.mapping (← makeEntries place))
  | _ => return

/-- Fills what was put off, round by round; what is put off meanwhile belongs to the next round. No
collection is put off twice, so there are no more rounds than nodes. -/
def fillAll : Nat → Assemble Unit
  | 0 => return
  | fuel + 1 => do
    let round := (← get).waiting.reverse
    if !round.isEmpty then
      modify fun a => { a with waiting := [] }
      for place in round do
        fillAt place
      fillAll fuel

end Assemble

/-- Puts the values of a document together. -/
def Document.assemble (document : Document) : Except Error (Array (Option Made)) := do
  let start : Assembly :=
    { nodes := document.nodes, made := Array.replicate document.nodes.size none }
  let work : Assemble Unit := do
    Assemble.make document.root
    Assemble.fillAll (document.nodes.size + 1)
  return (← work.run start).2.made

end Yaml
end Chiptune
