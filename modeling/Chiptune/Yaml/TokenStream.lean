import Chiptune.Yaml.Scalar

/-!
# The tokens of a configuration text

Layout becomes tokens: a block starts where the column grows and ends where it shrinks. Whether a
text is a key shows only at the colon behind it, so every place where a key may have started is kept
until the colon comes, or cannot come any more; the tokens for the key and for the block that it may
start are then put in front of it.

A text can be broken at one place and no document at an earlier one. The tokens up to which a reader
gets before it has to look at the broken place are therefore given together with the fault.
-/

namespace Chiptune
namespace Yaml

/-- A place where a key may have started. Where the layout needs a key, it is an error if none
comes. -/
structure KeyPlace where
  token : Nat
  required : Bool
  index : Nat
  line : Nat
  column : Nat

/-- How far a text has been turned into tokens. -/
structure Lexer where
  cursor : Cursor
  /-- How many tokens have been given to the reader. -/
  given : Nat := 0
  /-- The tokens behind them. -/
  tokens : Array Token := #[]
  /-- How many flow collections are open; below zero where one was closed too often. -/
  flow : Int := 0
  /-- The column of the innermost block, if there is one. -/
  indent? : Option Nat := none
  /-- The columns of the blocks around it, the innermost first. -/
  outer : List (Option Nat) := []
  keyAllowed : Bool := true
  /-- The place of a possible key in every open flow collection, and outside of them. -/
  keys : List (Int × KeyPlace) := []
  done : Bool := false

namespace Lexer

/-- Characters that form no token. -/
def fail {α : Type} : Except Error α := .error (.yaml .token)

/-- Whether layout counts, as it does outside of flow collections. -/
def inBlock (lexer : Lexer) : Bool := lexer.flow == 0

/-- Adds a token. -/
def push (lexer : Lexer) (token : Token) : Lexer := { lexer with tokens := lexer.tokens.push token }

/-- Reads some characters. -/
def advance (lexer : Lexer) (count : Nat) : Except Error Lexer := do
  return { lexer with cursor := ← lexer.cursor.advance count }

/-- Reads some characters that are a token. -/
def pushMark (lexer : Lexer) (count : Nat) (token : Token) : Except Error Lexer := do
  return (← lexer.advance count).push token

/-- Adds the token that work at the present place gives. -/
def pushScan (lexer : Lexer) (scan : Scan Token) : Except Error Lexer := do
  let (token, cursor) ← scan.run lexer.cursor
  return { lexer with cursor, tokens := lexer.tokens.push token }

/-- Whether a possible key cannot be one any more: a key ends on the line on which it starts, within
1024 characters. -/
def isStale (lexer : Lexer) (place : KeyPlace) : Bool :=
  place.line != lexer.cursor.line || lexer.cursor.index - place.index > 1024

/-- Forgets the possible keys that cannot be keys any more. -/
def dropStale (lexer : Lexer) : Except Error Lexer :=
  if lexer.keys.any fun k => lexer.isStale k.2 && k.2.required then fail
  else .ok { lexer with keys := lexer.keys.filter fun k => !lexer.isStale k.2 }

/-- Forgets the possible key of the present flow collection. -/
def dropKey (lexer : Lexer) : Except Error Lexer :=
  if lexer.keys.any fun k => k.1 == lexer.flow && k.2.required then fail
  else .ok { lexer with keys := lexer.keys.filter fun k => k.1 != lexer.flow }

/-- Keeps the present place as one where a key may start. -/
def saveKey (lexer : Lexer) : Except Error Lexer := do
  if lexer.keyAllowed then
    let cleared ← lexer.dropKey
    let cursor := lexer.cursor
    let required := lexer.inBlock && lexer.indent? == some cursor.column
    let token := lexer.given + lexer.tokens.size
    let place : KeyPlace := ⟨token, required, cursor.index, cursor.line, cursor.column⟩
    return { cleared with keys := (lexer.flow, place) :: cleared.keys }
  else
    return lexer

/-- Ends the blocks that are indented further than a column, or all of them. -/
def unwindTo (column? : Option Nat) : Nat → Lexer → Lexer
  | 0, lexer => lexer
  | fuel + 1, lexer =>
    match lexer.indent? with
    | none => lexer
    | some indent =>
      if column?.all (· < indent) then
        unwindTo column? fuel
          { lexer.push .blockEnd with indent? := lexer.outer.headD none, outer := lexer.outer.tail }
      else
        lexer

/-- Ends the blocks that are indented further than a column, or all of them, where layout counts. -/
def unwind (lexer : Lexer) (column? : Option Nat) : Lexer :=
  if lexer.inBlock then unwindTo column? (lexer.outer.length + 1) lexer else lexer

/-- Whether a column is further in than the innermost block. -/
def isDeeper (lexer : Lexer) (column : Nat) : Bool := lexer.indent?.all (· < column)

/-- Starts a block at a column that is further in than the innermost one, with a token put in at a
place. -/
def openBlock (lexer : Lexer) (column place : Nat) (token : Token) : Lexer :=
  if lexer.isDeeper column then
    { lexer with
      indent? := some column
      outer := lexer.indent? :: lexer.outer
      tokens := lexer.tokens.insertIdxIfInBounds place token }
  else
    lexer

/-- Starts a block at the present column, if that is further in. -/
def openBlockHere (lexer : Lexer) (token : Token) : Lexer :=
  lexer.openBlock lexer.cursor.column lexer.tokens.size token

/-- Passes over spaces, comments and empty lines. -/
def skipToToken : Nat → Lexer → Except Error Lexer
  | 0, lexer => .ok lexer
  | fuel + 1, lexer => do
    let work : Scan (List Char) := do
      Scan.skipSpaces
      Scan.skipComment
      Scan.lineBreak
    let (broken, cursor) ← work.run lexer.cursor
    let next := { lexer with cursor }
    if broken.isEmpty then
      return next
    else
      skipToToken fuel { next with keyAllowed := next.keyAllowed || next.inBlock }

/-! ## One token -/

/-- Ends the text. -/
def streamEnd (lexer : Lexer) : Except Error Lexer := do
  let closed ← (lexer.unwind none).dropKey
  return { closed.push .streamEnd with keyAllowed := false, keys := [], done := true }

/-- Reads a directive. -/
def directive (lexer : Lexer) : Except Error Lexer := do
  let closed ← (lexer.unwind none).dropKey
  { closed with keyAllowed := false }.pushScan Property.directive

/-- Reads the start or end of a document. -/
def separator (lexer : Lexer) (token : Token) : Except Error Lexer := do
  let closed ← (lexer.unwind none).dropKey
  { closed with keyAllowed := false }.pushMark 3 token

/-- Opens a flow collection. -/
def flowStart (lexer : Lexer) (token : Token) : Except Error Lexer := do
  let saved ← lexer.saveKey
  { saved with flow := saved.flow + 1, keyAllowed := true }.pushMark 1 token

/-- Closes a flow collection. -/
def flowEnd (lexer : Lexer) (token : Token) : Except Error Lexer := do
  let cleared ← lexer.dropKey
  { cleared with flow := cleared.flow - 1, keyAllowed := false }.pushMark 1 token

/-- Reads a comma. -/
def flowEntry (lexer : Lexer) : Except Error Lexer := do
  let cleared ← lexer.dropKey
  { cleared with keyAllowed := true }.pushMark 1 .flowEntry

/-- Reads the dash of an entry. -/
def blockEntry (lexer : Lexer) : Except Error Lexer := do
  if lexer.inBlock && !lexer.keyAllowed then fail
  else
    let opened := if lexer.inBlock then lexer.openBlockHere .blockSequenceStart else lexer
    let cleared ← opened.dropKey
    { cleared with keyAllowed := true }.pushMark 1 .blockEntry

/-- Reads the question mark of a key. -/
def key (lexer : Lexer) : Except Error Lexer := do
  if lexer.inBlock && !lexer.keyAllowed then fail
  else
    let opened := if lexer.inBlock then lexer.openBlockHere .blockMappingStart else lexer
    let cleared ← opened.dropKey
    { cleared with keyAllowed := lexer.inBlock }.pushMark 1 .key

/-- Reads the colon of a value. If a key may have started before it, a key it was. -/
def value (lexer : Lexer) : Except Error Lexer := do
  match lexer.keys.find? fun k => k.1 == lexer.flow with
  | some (_, place) =>
    let start := place.token - lexer.given
    let marked : Lexer :=
      { lexer with
        keys := lexer.keys.filter fun k => k.1 != lexer.flow
        tokens := lexer.tokens.insertIdxIfInBounds start .key }
    let opened :=
      if lexer.inBlock then marked.openBlock place.column start .blockMappingStart else marked
    { opened with keyAllowed := false }.pushMark 1 .value
  | none =>
    if lexer.inBlock && !lexer.keyAllowed then fail
    else
      let opened := if lexer.inBlock then lexer.openBlockHere .blockMappingStart else lexer
      let cleared ← opened.dropKey
      { cleared with keyAllowed := lexer.inBlock }.pushMark 1 .value

/-- Reads something that may be a key, or stand in front of one. -/
def content (lexer : Lexer) (scan : Scan Token) : Except Error Lexer := do
  let saved ← lexer.saveKey
  { saved with keyAllowed := false }.pushScan scan

/-- Reads a block text, which is no key. -/
def block (lexer : Lexer) (folded : Bool) : Except Error Lexer := do
  let cleared ← lexer.dropKey
  { cleared with keyAllowed := true }.pushScan (Scalar.block folded lexer.indent?)

/-- Reads a plain text. Behind a line break another key may follow. -/
def plain (lexer : Lexer) : Except Error Lexer := do
  let saved ← lexer.saveKey
  let column := (lexer.indent?.map (· + 1)).getD 0
  let ((token, broken), cursor) ← (Scalar.plain (!lexer.inBlock) column).run saved.cursor
  return { saved with cursor, keyAllowed := broken }.push token

/-- Whether a plain text may start here. -/
def startsPlain (lexer : Lexer) (c : Char) : Except Error Bool := do
  if endsWord (some c) || "-?:,[]\x7b\x7d#&*!|>'\"%@`".toList.contains c then
    return !endsWord (← lexer.cursor.peekAt? 1) &&
      (c == '-' || (lexer.inBlock && (c == '?' || c == ':')))
  else
    return true

/-- Whether a mark stands alone here, or layout does not count. -/
def isMark (lexer : Lexer) : Except Error Bool := do
  if lexer.inBlock then return endsWord (← lexer.cursor.peekAt? 1) else return true

/-- Reads a plain text, where one may start. -/
def plainAt (lexer : Lexer) (c : Char) : Except Error Lexer := do
  if ← lexer.startsPlain c then lexer.plain else fail

/-- Reads the token that starts with a dash. -/
def dash (lexer : Lexer) : Except Error Lexer := do
  if lexer.cursor.column == 0 then
    if ← lexer.cursor.isSeparator ['-'] then
      return ← lexer.separator .documentStart
  if endsWord (← lexer.cursor.peekAt? 1) then lexer.blockEntry else lexer.plainAt '-'

/-- Reads the token that starts with a full stop. -/
def dot (lexer : Lexer) : Except Error Lexer := do
  if lexer.cursor.column == 0 then
    if ← lexer.cursor.isSeparator ['.'] then
      return ← lexer.separator .documentEnd
  lexer.plainAt '.'

/-- Reads the token that starts with a character. -/
def tokenAt (lexer : Lexer) (c : Char) : Except Error Lexer := do
  match c with
  | '[' => lexer.flowStart .flowSequenceStart
  | '\x7b' => lexer.flowStart .flowMappingStart
  | ']' => lexer.flowEnd .flowSequenceEnd
  | '\x7d' => lexer.flowEnd .flowMappingEnd
  | ',' => lexer.flowEntry
  | '*' => lexer.content do return .alias (← Property.name)
  | '&' => lexer.content do return .anchor (← Property.name)
  | '!' => lexer.content Property.tag
  | '\'' => lexer.content (Scalar.quoted false)
  | '"' => lexer.content (Scalar.quoted true)
  | '-' => lexer.dash
  | '.' => lexer.dot
  | '?' => if ← lexer.isMark then lexer.key else lexer.plainAt c
  | ':' => if ← lexer.isMark then lexer.value else lexer.plainAt c
  | _ =>
    if c == '%' && lexer.cursor.column == 0 then lexer.directive
    else if c == '|' && lexer.inBlock then lexer.block false
    else if c == '>' && lexer.inBlock then lexer.block true
    else lexer.plainAt c

/-- Reads one token, or several where layout asks for it. -/
def step (lexer : Lexer) : Except Error Lexer := do
  let cursor := lexer.cursor
  let start ←
    if cursor.index == 0 && cursor.isAt '\ufeff' then lexer.advance 1 else pure lexer
  let reached ← (← skipToToken (cursor.left + 1) start).dropStale
  let ready := reached.unwind (some reached.cursor.column)
  match ready.cursor.peek? with
  | none => ready.streamEnd
  | some c => ready.tokenAt c

/-- How many tokens a reader gets without looking further: those in front of the first possible
key. -/
def settled (lexer : Lexer) : Nat :=
  lexer.keys.foldl (fun n k => min n (k.2.token - lexer.given)) lexer.tokens.size

/-- Gives the reader the tokens that are settled. -/
def give (lexer : Lexer) : Array Token × Lexer :=
  let count := lexer.settled
  if count = lexer.tokens.size then
    (lexer.tokens, { lexer with given := lexer.given + count, tokens := #[] })
  else
    (lexer.tokens.extract 0 count,
      { lexer with given := lexer.given + count, tokens := lexer.tokens.extract count })

end Lexer

/-- The tokens that a reader gets, and the fault that it then meets, if there is one. -/
structure TokenStream where
  tokens : List Token
  failure? : Option Error

namespace TokenStream

/-- Reads tokens to the end of the text, or to the first fault, behind those that a reader has
got. -/
def readFrom (before : Array Token) : Nat → Lexer → TokenStream
  | 0, lexer => ⟨(before ++ lexer.tokens).toList, none⟩
  | fuel + 1, lexer =>
    match lexer.dropStale with
    | .error fault => ⟨before.toList, some fault⟩
    | .ok fresh =>
      let (settled, kept) := fresh.give
      let got := before ++ settled
      match kept.step with
      | .error fault => ⟨got.toList, some fault⟩
      | .ok next =>
        if next.done then ⟨(got ++ next.tokens).toList, none⟩ else readFrom got fuel next

/-- The tokens of a text, up to where it is spoilt, if it is. A text that is spoilt from the start
has none. -/
def ofText (text : List Char) (failure? : Option Error) : TokenStream :=
  let start : Cursor := { rest := text, failure? }
  match start.peekAt? 0 with
  | .error failure => ⟨[], some failure⟩
  | .ok _ => readFrom #[] (text.length + 2) { cursor := start }

end TokenStream
end Yaml
end Chiptune
