import Chiptune.Yaml.Property

/-!
# Scalars

Texts, in the five ways to write them: plain, in single or double quotes, and as a literal or
folded block. Line breaks inside a text are folded into spaces, except in literal blocks; one
break too many is kept as a break.
-/

namespace Chiptune
namespace Yaml
namespace Scalar

open Scan

/-! ## Quoted texts -/

/-- What a character behind a backslash stands for. -/
def escaped? : Char → Option Char
  | '0' => some '\x00'
  | 'a' => some '\x07'
  | 'b' => some '\x08'
  | 't' | '\t' => some '\t'
  | 'n' => some '\n'
  | 'v' => some '\x0b'
  | 'f' => some '\x0c'
  | 'r' => some '\r'
  | 'e' => some '\x1b'
  | ' ' => some ' '
  | '"' => some '"'
  | '\\' => some '\\'
  | '/' => some '/'
  | 'N' => some '\u0085'
  | '_' => some '\u00a0'
  | 'L' => some '\u2028'
  | 'P' => some '\u2029'
  | _ => none

/-- How many digits a code point has behind a letter. -/
def codeLength? : Char → Option Nat
  | 'x' => some 2
  | 'u' => some 4
  | 'U' => some 8
  | _ => none

/-- The code point with a number. -/
def codePoint (code : Nat) : Scan Text.Point :=
  if 0xd800 ≤ code && code < 0xe000 then pure (.half code.toUInt16)
  else if code < 0x110000 then pure (.character (Char.ofNat code))
  else throw (if code < 0x80000000 then .codePoint else .codeWord)

/-- Reads the empty lines inside a quoted text. No document may start or end there. -/
def quotedBreaks : Nat → Scan (List Char)
  | 0 => return []
  | fuel + 1 => do
    require !(← isAnySeparator)
    let _ ← takeWhile fun c => c == ' ' || c == '\t'
    let first ← lineBreak
    if first.isEmpty then return [] else return first ++ (← quotedBreaks fuel)

/-- A break and the breaks behind it, folded: one alone is a space, and of several the first is
dropped. -/
def fold (first later : List Char) : List Char :=
  if first != ['\n'] then first ++ later else if later.isEmpty then [' '] else later

/-- Reads a backslash in double quotes and what it stands for. -/
def escape (fuel : Nat) : Scan (List Text.Point) := do
  skip 1
  match ← peek? with
  | none => fail
  | some c =>
    match escaped? c, codeLength? c with
    | some meant, _ =>
      skip 1
      return [.character meant]
    | none, some length =>
      skip 1
      return [← codePoint (← Property.hexDigits length)]
    | none, none =>
      require (isBreak c)
      let _ ← lineBreak
      return Text.pointsOf (← quotedBreaks fuel)

/-- Reads the spaces and breaks inside a quoted text. -/
def quotedSpaces (fuel : Nat) : Scan (List Char) := do
  let blanks ← takeWhile fun c => c == ' ' || c == '\t'
  require (← peek?).isSome
  let first ← lineBreak
  if first.isEmpty then return blanks else return fold first (← quotedBreaks fuel)

/-- Whether a character of a quoted text stands for itself. -/
def isOrdinary (c : Char) : Bool :=
  !(c == '\'' || c == '"' || c == '\\' || endsWord (some c))

/-- Reads a quoted text behind its opening quote, up to and with the closing one. -/
def quotedRest (double : Bool) : Nat → Scan (List Text.Point)
  | 0 => fail
  | fuel + 1 => do
    let run := Text.pointsOf (← takeWhile isOrdinary)
    let quote := if double then '"' else '\''
    match ← peek? with
    | none => fail
    | some c =>
      if c == quote then
        if !double && (← peekAt? 1) == some '\'' then
          skip 2
          return run ++ .character '\'' :: (← quotedRest double fuel)
        else
          skip 1
          return run
      else if double && c == '\\' then
        let meant ← escape fuel
        return run ++ meant ++ (← quotedRest double fuel)
      else if c == '\'' || c == '"' || c == '\\' then
        skip 1
        return run ++ .character c :: (← quotedRest double fuel)
      else
        let spaces := Text.pointsOf (← quotedSpaces fuel)
        return run ++ spaces ++ (← quotedRest double fuel)

/-- Reads a quoted text. -/
def quoted (double : Bool) : Scan Token := do
  skip 1
  return .scalar (← quotedRest double ((← get).left + 1)) false

/-! ## Block texts -/

/-- What becomes of the line breaks at the end of a block. -/
inductive Chomping where
  | strip
  | clip
  | keep
  deriving DecidableEq, Repr

/-- Reads a digit that says how far a block is indented, if there is one. -/
def increment? : Scan (Option Nat) := do
  match ← peek? with
  | some c =>
    if c.isDigit then
      require (c != '0')
      skip 1
      return some (c.toNat - '0'.toNat)
    else
      return none
  | none => return none

/-- Reads the mark that says what becomes of the breaks at the end, if there is one. -/
def chomping? : Scan (Option Chomping) := do
  match ← peek? with
  | some '+' =>
    skip 1
    return some .keep
  | some '-' =>
    skip 1
    return some .strip
  | _ => return none

/-- Reads the marks behind the sign of a block, in either order. -/
def indicators : Scan (Chomping × Option Nat) := do
  let result ← match ← chomping? with
    | some chomping => pure (chomping, ← increment?)
    | none => do
      let increment ← increment?
      if increment.isSome then pure ((← chomping?).getD .clip, increment) else pure (.clip, none)
  require (endsMark (← peek?))
  return result

/-- Reads empty lines and the indentation of the first line, and gives the breaks and the greatest
column. -/
def indentation : Nat → Nat → Scan (List Char × Nat)
  | 0, greatest => return ([], greatest)
  | fuel + 1, greatest => do
    match ← peek? with
    | some c =>
      if isBreak c then
        let first ← lineBreak
        let (later, column) ← indentation fuel greatest
        return (first ++ later, column)
      else if c == ' ' then
        skip 1
        indentation fuel (max greatest (← get).column)
      else
        return ([], greatest)
    | none => return ([], greatest)

/-- Reads spaces up to a column. -/
def indent (column : Nat) : Nat → Scan Unit
  | 0 => return
  | fuel + 1 => do
    let cursor ← get
    if cursor.column < column && cursor.isAt ' ' then
      skip 1
      indent column fuel

/-- Reads the empty lines of a block, and the indentation behind them. -/
def blockBreaks (column : Nat) : Nat → Scan (List Char)
  | 0 => return []
  | fuel + 1 => do
    indent column column
    let first ← lineBreak
    if first.isEmpty then return [] else return first ++ (← blockBreaks column fuel)

/-- Whether a block goes on at a place. -/
def goesOn (column : Nat) (cursor : Cursor) : Bool :=
  cursor.column == column && cursor.peek?.isSome

/-- Whether a line starts with a blank, which keeps it from being folded. -/
def startsBlank (cursor : Cursor) : Bool := cursor.isAt ' ' || cursor.isAt '\t'

/-- Reads the lines of a block. `before` holds the breaks in front of the first of them. Gives the
text without its end, the break at the end of the last line, and the breaks behind that. -/
def blockLines (folded : Bool) (column : Nat) :
    Nat → List Char → Scan (List Char × List Char × List Char)
  | 0, before => return ([], [], before)
  | fuel + 1, before => do
    if !goesOn column (← get) then
      return ([], [], before)
    let blank := startsBlank (← get)
    let content ← takeWhile fun c => !isBreak c
    let ending ← lineBreak
    let breaks ← blockBreaks column (fuel + 1)
    let cursor ← get
    if goesOn column cursor then
      let joint :=
        if folded && ending == ['\n'] && !blank && !startsBlank cursor then
          if breaks.isEmpty then [' '] else []
        else
          ending
      let (later, rest) ← blockLines folded column fuel breaks
      return (before ++ content ++ joint ++ later, rest)
    else
      return (before ++ content, ending, breaks)

/-- Reads a block, in a context that is indented to a column, or not at all where there is none. -/
def block (folded : Bool) (context? : Option Nat) : Scan Token := do
  skip 1
  let (chomping, increment?) ← indicators
  endOfLine
  let least :=
    match context? with
    | some column => column + 1
    | none => 1
  let fuel := (← get).left + 1
  let (column, before) ← match increment? with
    | some n => do
      let column := (match context? with | some c => c + 1 | none => 1) + n - 1
      pure (column, ← blockBreaks column fuel)
    | none => do
      let (breaks, greatest) ← indentation fuel 0
      pure (max least greatest, breaks)
  let (content, ending, breaks) ← blockLines folded column fuel before
  let tail :=
    match chomping with
    | .strip => []
    | .clip => ending
    | .keep => ending ++ breaks
  return .scalar (Text.pointsOf (content ++ tail)) false

/-! ## Plain texts -/

/-- Whether a plain text ends in front of the given characters. -/
def endsPlain (flow : Bool) (text : List Char) : Bool :=
  match text with
  | [] => true
  | c :: rest =>
    endsWord (some c) ||
      (c == ':' &&
        (endsWord rest.head? || (flow && rest.head?.any ",[]\x7b\x7d".toList.contains))) ||
      (flow && ",?[]\x7b\x7d".toList.contains c)

/-- The characters at the head of a text that belong to one run of a plain text. -/
def plainRun (flow : Bool) : List Char → List Char
  | [] => []
  | c :: rest => if endsPlain flow (c :: rest) then [] else c :: plainRun flow rest

/-- The run of a plain text that is next. Behind a colon, one character more has to be known. -/
def nextRun (flow : Bool) : Scan (List Char) := do
  let run := plainRun flow (← get).rest
  if (← peekAt? run.length) == some ':' then
    let _ ← peekAt? (run.length + 1)
  return run

/-- Reads the empty lines and the indentation inside a plain text; none where a document starts or
ends. -/
def plainBreaks : Nat → Scan (Option (List Char))
  | 0 => return some []
  | fuel + 1 => do
    if ← isAnySeparator then
      return none
    skipSpaces
    let first ← lineBreak
    if first.isEmpty then return some [] else return (← plainBreaks fuel).map (first ++ ·)

/-- Reads the spaces and breaks inside a plain text, and says whether there was a break. Nothing is
given where the text cannot go on. -/
def plainSpaces (fuel : Nat) : Scan (List Char × Bool) := do
  let blanks ← takeWhile (· == ' ')
  let first ← lineBreak
  if first.isEmpty then
    return (blanks, false)
  else
    match ← plainBreaks fuel with
    | some later => return (fold first later, true)
    | none => return ([], true)

/-- Reads a plain text. `column` is the least column on which it may go on. Says whether it ended
behind a line break. -/
def plainRest (flow : Bool) (column : Nat) : Nat → Scan (List Char × Bool)
  | 0 => return ([], false)
  | fuel + 1 => do
    if (← get).isAt '#' then
      return ([], false)
    let run ← nextRun flow
    if run.isEmpty then
      return ([], false)
    skip run.length
    let (spaces, broken) ← plainSpaces fuel
    let cursor ← get
    if spaces.isEmpty || cursor.isAt '#' || (!flow && cursor.column < column) then
      return (run, broken)
    else if (← nextRun flow).isEmpty then
      return (run, broken)
    else
      let (later, ended) ← plainRest flow column fuel
      return (run ++ spaces ++ later, ended)

/-- Reads a plain text, and says whether it ended behind a line break. -/
def plain (flow : Bool) (column : Nat) : Scan (Token × Bool) := do
  let (text, broken) ← plainRest flow column ((← get).left + 1)
  return (.scalar (Text.pointsOf text) true, broken)

end Scalar
end Yaml
end Chiptune
