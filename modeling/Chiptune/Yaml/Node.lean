import Chiptune.Yaml.Implicit
import Chiptune.Yaml.TokenStream

/-!
# Nodes

A document is made of texts, sequences and mappings, each with a tag that says what it means. An
anchor names a node, and an alias stands for the node that was named before, even inside that node.
So nodes are kept in a table and refer to each other by their places in it.
-/

namespace Chiptune
namespace Yaml

/-- What a node holds. -/
inductive Content where
  | scalar (text : List Text.Point)
  | sequence (items : List Nat)
  | mapping (entries : List (Nat × Nat))
  deriving DecidableEq, Repr

/-- A node of a document. -/
structure Node where
  tag : Tag
  content : Content
  deriving DecidableEq, Repr

/-- A text where nothing is written. -/
def Node.blank : Node := ⟨.null, .scalar []⟩

/-- A document: its nodes, and the place of the one that holds all others. -/
structure Document where
  nodes : Array Node
  root : Nat
  deriving DecidableEq, Repr

/-- How far the tokens of a document have been read: what is left, the addresses that handles stand
for, the nodes so far, and the places that anchors name. -/
structure Composer where
  stream : TokenStream
  handles : List (String × String)
  nodes : Array Node := #[]
  anchors : List (String × Nat) := []

/-- Work on the tokens of a document. -/
abbrev Compose := StateT Composer (Except Error)

namespace Compose

/-- Tokens that form no document. -/
def fail {α : Type} : Compose α := throw (.yaml .document)

/-- References that do not add up. -/
def failReference {α : Type} : Compose α := throw (.yaml .composition)

/-- The handles that every document has. -/
def standardHandles : List (String × String) := [("!", "!"), ("!!", Tag.standard)]

/-- The next token. Where there is none, the fault in the text shows. -/
def peek : Compose Token := do
  let stream := (← get).stream
  match stream.tokens with
  | token :: _ => return token
  | [] => throw (stream.failure?.getD (.yaml .document))

/-- Passes over the next token. -/
def skip : Compose Unit :=
  modify fun c => { c with stream := { c.stream with tokens := c.stream.tokens.tail } }

/-- Passes over the next token if it is the given one, and says whether it was. -/
def accept (token : Token) : Compose Bool := do
  if (← peek) == token then
    skip
    return true
  else
    return false

/-- Passes over the next token, which has to be the given one. -/
def expect (token : Token) : Compose Unit := do
  if !(← accept token) then fail

/-- Adds a node and gives its place. -/
def add (node : Node) : Compose Nat := do
  let place := (← get).nodes.size
  modify fun c => { c with nodes := c.nodes.push node }
  return place

/-- Gives the node at a place its content. -/
def fill (place : Nat) (content : Content) : Compose Unit :=
  modify fun c => { c with nodes := c.nodes.modify place fun node => { node with content } }

/-- Names the node at a place, where there is an anchor. -/
def name (anchor? : Option String) (place : Nat) : Compose Unit :=
  match anchor? with
  | none => return
  | some anchor => modify fun c => { c with anchors := (anchor, place) :: c.anchors }

/-- The place that an anchor names. -/
def named (anchor : String) : Compose Nat := do
  match (← get).anchors.find? fun entry => entry.1 == anchor with
  | some (_, place) => return place
  | none => failReference

/-- The address of a tag. -/
def address (handle? : Option String) (suffix : String) : Compose String := do
  match handle? with
  | none => return suffix
  | some handle =>
    match (← get).handles.find? fun entry => entry.1 == handle with
    | some (_, start) => return start ++ suffix
    | none => fail

/-- What stands in front of a node: an anchor and the address of a tag, in either order. -/
def properties : Compose (Option String × Option String) := do
  match ← peek with
  | .anchor anchor =>
    skip
    match ← peek with
    | .tag handle? suffix =>
      skip
      return (some anchor, some (← address handle? suffix))
    | _ => return (some anchor, none)
  | .tag handle? suffix =>
    skip
    match ← peek with
    | .anchor anchor =>
      skip
      return (some anchor, some (← address handle? suffix))
    | _ => return (none, some (← address handle? suffix))
  | _ => return (none, none)

/-- The tag of a text. An exclamation mark alone asks for the tag that the text would have if it
were plain. -/
def scalarTag (address? : Option String) (plain : Bool) (text : List Text.Point) : Tag :=
  match address? with
  | none => if plain then Implicit.tag text else .text
  | some "!" => Implicit.tag text
  | some address => Tag.ofAddress address

/-- The tag of a collection. -/
def collectionTag (address? : Option String) (standard : Tag) : Tag :=
  match address? with
  | none => standard
  | some "!" => standard
  | some address => Tag.ofAddress address

/-- Where a node stands: whether it may be a block, and whether entries without a block of their own
may follow. -/
structure Place where
  block : Bool
  indentless : Bool

/-- Inside a flow collection. -/
def Place.flow : Place := ⟨false, false⟩

/-- At the top, or in a block sequence. -/
def Place.entry : Place := ⟨true, false⟩

/-- In a block mapping. -/
def Place.field : Place := ⟨true, true⟩

/-- What follows the properties of a node. -/
inductive Shape where
  | scalar (text : List Text.Point) (plain : Bool)
  | indentless
  | flowSequence
  | flowMapping
  | blockSequence
  | blockMapping
  /-- Nothing, which is enough where there are properties. -/
  | unwritten

/-- What the next token starts at a place. -/
def shape? (place : Place) (named : Bool) : Token → Option Shape
  | .scalar text plain => some (.scalar text plain)
  | .flowSequenceStart => some .flowSequence
  | .flowMappingStart => some .flowMapping
  | .blockEntry => if place.indentless then some .indentless else ifNamed named
  | .blockSequenceStart => if place.block then some .blockSequence else ifNamed named
  | .blockMappingStart => if place.block then some .blockMapping else ifNamed named
  | _ => ifNamed named
where
  /-- Nothing, where there are properties. -/
  ifNamed (named : Bool) : Option Shape := if named then some .unwritten else none

/-- Fails where a node of the name is there already. -/
def requireNew (anchor? : Option String) : Compose Unit := do
  let anchors := (← get).anchors
  if anchor?.any fun anchor => anchors.any fun entry => entry.1 == anchor then
    failReference

/-- Adds a text under its anchor. -/
def scalar (anchor? : Option String) (tag : Tag) (text : List Text.Point) : Compose Nat := do
  let place ← add ⟨tag, .scalar text⟩
  name anchor? place
  return place

/-- Adds a collection under its anchor. It can be referred to before its content is read. -/
def collection (anchor? : Option String) (tag : Tag) (content : Compose Content) :
    Compose Nat := do
  let place ← add ⟨tag, .sequence []⟩
  name anchor? place
  fill place (← content)
  return place

/-- The tokens behind the dash of an entry that show that no node is written. -/
def endsEntry (token : Token) : Bool := token == .blockEntry || token == .blockEnd

/-- The tokens behind the mark of a key or value that show that no node is written. -/
def endsField (token : Token) : Bool :=
  token == .key || token == .value || token == .blockEnd

/-- The tokens in a flow collection that show that no node is written. -/
def endsFlow (close token : Token) : Bool := token == .flowEntry || token == close

mutual

/-- Reads a node and gives its place. -/
def node (place : Place) : Nat → Compose Nat
  | 0 => fail
  | fuel + 1 => do
    match ← peek with
    | .alias anchor =>
      skip
      named anchor
    | _ =>
      let (anchor?, address?) ← properties
      match shape? place (anchor?.isSome || address?.isSome) (← peek) with
      | none => fail
      | some shape =>
        requireNew anchor?
        let sequence (items : Compose (List Nat)) :=
          collection anchor? (collectionTag address? .sequence) (.sequence <$> items)
        let mapping (entries : Compose (List (Nat × Nat))) :=
          collection anchor? (collectionTag address? .mapping) (.mapping <$> entries)
        match shape with
        | .scalar text plain =>
          skip
          scalar anchor? (scalarTag address? plain text) text
        | .unwritten => scalar anchor? (scalarTag address? true []) []
        | .indentless => sequence (indentlessItems fuel)
        | .flowSequence =>
          skip
          sequence (flowItems true fuel)
        | .flowMapping =>
          skip
          mapping (flowEntries true fuel)
        | .blockSequence =>
          skip
          sequence (blockItems fuel)
        | .blockMapping =>
          skip
          mapping (blockEntries fuel)

/-- Reads a node, unless the next token shows that none is written. -/
def nodeUnless (stops : Token → Bool) (place : Place) : Nat → Compose Nat
  | 0 => fail
  | fuel + 1 => do if stops (← peek) then add .blank else node place fuel

/-- Reads the value behind a key, unless none is written. -/
def valueUnless (stops : Token → Bool) (place : Place) : Nat → Compose Nat
  | 0 => fail
  | fuel + 1 => do if ← accept .value then nodeUnless stops place fuel else add .blank

/-- Reads the entries of a block sequence. -/
def blockItems : Nat → Compose (List Nat)
  | 0 => fail
  | fuel + 1 => do
    if ← accept .blockEntry then
      let item ← nodeUnless endsEntry .entry fuel
      return item :: (← blockItems fuel)
    else
      expect .blockEnd
      return []

/-- Reads the entries of a sequence that has no block of its own. -/
def indentlessItems : Nat → Compose (List Nat)
  | 0 => fail
  | fuel + 1 => do
    if ← accept .blockEntry then
      let item ← nodeUnless (fun t => t == .blockEntry || endsField t) .entry fuel
      return item :: (← indentlessItems fuel)
    else
      return []

/-- Reads the entries of a block mapping. -/
def blockEntries : Nat → Compose (List (Nat × Nat))
  | 0 => fail
  | fuel + 1 => do
    if ← accept .key then
      let key ← nodeUnless endsField .field fuel
      let value ← valueUnless endsField .field fuel
      return (key, value) :: (← blockEntries fuel)
    else
      expect .blockEnd
      return []

/-- Reads one entry of a flow collection behind the mark of its key. -/
def flowEntry (close : Token) : Nat → Compose (Nat × Nat)
  | 0 => fail
  | fuel + 1 => do
    let key ← nodeUnless (fun t => t == .value || endsFlow close t) .flow fuel
    let value ← valueUnless (endsFlow close) .flow fuel
    return (key, value)

/-- Reads the items of a flow sequence. A key among them makes a mapping of one entry. -/
def flowItems (first : Bool) : Nat → Compose (List Nat)
  | 0 => fail
  | fuel + 1 => do
    if ← accept .flowSequenceEnd then
      return []
    if !first then
      expect .flowEntry
    if ← accept .flowSequenceEnd then
      return []
    let item ←
      if ← accept .key then
        let entry ← flowEntry .flowSequenceEnd fuel
        add ⟨.mapping, .mapping [entry]⟩
      else
        node .flow fuel
    return item :: (← flowItems false fuel)

/-- Reads the entries of a flow mapping. -/
def flowEntries (first : Bool) : Nat → Compose (List (Nat × Nat))
  | 0 => fail
  | fuel + 1 => do
    if ← accept .flowMappingEnd then
      return []
    if !first then
      expect .flowEntry
    if ← accept .flowMappingEnd then
      return []
    let entry ←
      if ← accept .key then
        flowEntry .flowMappingEnd fuel
      else
        let key ← node .flow fuel
        pure (key, ← add .blank)
    return entry :: (← flowEntries false fuel)

end

/-! ## Documents -/

/-- Reads the directives in front of a document and gives the handles that they declare. -/
def directives (versioned : Bool) (declared : List (String × String)) :
    Nat → Compose (List (String × String))
  | 0 => fail
  | fuel + 1 => do
    match ← peek with
    | .directive content =>
      skip
      match content with
      | .version major =>
        if versioned || major != 1 then fail
        directives true declared fuel
      | .tag handle start =>
        if declared.any fun entry => entry.1 == handle then fail
        directives versioned (declared ++ [(handle, start)]) fuel
      | .unknown => directives versioned declared fuel
    | _ => return declared

/-- Passes over the marks behind a document. -/
def skipEnds : Nat → Compose Unit
  | 0 => fail
  | fuel + 1 => do
    if ← accept .documentEnd then
      skipEnds fuel

/-- Reads the directives and the mark that start a document. -/
def documentStart (fuel : Nat) : Compose Unit := do
  let declared ← directives false [] fuel
  modify fun c => { c with handles := declared ++ standardHandles }
  expect .documentStart

/-- Whether a token shows that a document behind its mark is empty. -/
def endsDocument (token : Token) : Bool :=
  token matches .directive _ | .documentStart | .documentEnd | .streamEnd

/-- Reads the document of a text, if it has one. A second one is refused. -/
def document (fuel : Nat) : Compose (Option Nat) := do
  let first ← peek
  if first == .streamEnd then
    return none
  let root ←
    if first matches .directive _ | .documentStart then do
      documentStart fuel
      nodeUnless endsDocument .entry fuel
    else
      node .entry fuel
  skipEnds fuel
  if (← peek) != .streamEnd then
    documentStart fuel
    failReference
  return some root

end Compose

/-- The document that tokens form, if they form one. -/
def Document.ofTokens (stream : TokenStream) : Except Error (Option Document) := do
  let start : Composer := { stream, handles := Compose.standardHandles }
  let (root?, composer) ← (Compose.document (4 * stream.tokens.length + 16)).run start
  return root?.map fun root => ⟨composer.nodes, root⟩

end Yaml
end Chiptune
