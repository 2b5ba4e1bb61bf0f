import Chiptune.Decimal.Real
import Chiptune.Text.Lines
import Chiptune.Value

/-!
# Days and moments in writing

A day is written as year, month and day; a moment adds its clock, perhaps with a fraction of the
second, and perhaps how far the clock is ahead of universal time.
-/

namespace Chiptune
namespace Yaml

/-- How far a clock is ahead of universal time, in digits. -/
structure Zone where
  behind : Bool
  hour : List Char
  minute : List Char

/-- A clock in digits. A zone that is not there is `none`, and universal time has no distance. -/
structure Clock where
  hour : List Char
  minute : List Char
  second : List Char
  fraction : List Char
  zone? : Option (Option Zone)

/-- A day, and perhaps a clock, in digits. -/
structure Timestamp where
  year : List Char
  month : List Char
  day : List Char
  clock? : Option Clock

namespace Timestamp

/-- Digits at the head of a text, at least and at most so many, and what is behind them. -/
def digits? (least most : Nat) (text : List Char) : Option (List Char × List Char) :=
  let run := (text.take most).takeWhile Char.isDigit
  if least ≤ run.length then some (run, text.drop run.length) else none

/-- A mark, and then digits. -/
def marked? (mark : Char) (least most : Nat) : List Char → Option (List Char × List Char)
  | [] => none
  | c :: rest => if c = mark then digits? least most rest else none

/-- Whether a character may stand between a day and its clock, or behind a clock. -/
def isGap (c : Char) : Bool := c == ' ' || c == '\t'

/-- The minutes of a zone, which may be missing, up to the end of the text. -/
def zoneMinute? (text : List Char) : Option (List Char) :=
  if text.isEmpty then some []
  else
    match marked? ':' 2 2 text with
    | some (minute, []) => some minute
    | _ => none

/-- Reads a zone, which may be missing, up to the end of the text. -/
def readZone? (text : List Char) : Option (Option (Option Zone)) :=
  if text.isEmpty then some none
  else
    match text.dropWhile isGap with
    | ['Z'] => some (some none)
    | sign :: rest =>
      if sign = '-' ∨ sign = '+' then do
        let (hour, behind) ← digits? 1 2 rest
        return some (some ⟨sign = '-', hour, ← zoneMinute? behind⟩)
      else
        none
    | [] => none

/-- Reads a clock. -/
def readClock? (text : List Char) : Option Clock := do
  let (hour, rest) ← digits? 1 2 text
  let (minute, rest) ← marked? ':' 2 2 rest
  let (second, rest) ← marked? ':' 2 2 rest
  let (fraction, rest) :=
    match rest with
    | '.' :: behind => (behind.takeWhile Char.isDigit, behind.dropWhile Char.isDigit)
    | _ => ([], rest)
  return ⟨hour, minute, second, fraction, ← readZone? rest⟩

/-- What is behind the mark or the gap between a day and its clock. -/
def behindGap? : List Char → Option (List Char)
  | [] => none
  | c :: rest =>
    if c = 'T' ∨ c = 't' then some rest
    else if isGap c then some (rest.dropWhile isGap)
    else none

/-- Reads a day, or a day and a clock. -/
def read? (text : List Char) : Option Timestamp := do
  let (year, rest) ← digits? 4 4 text
  let (month, rest) ← marked? '-' 1 2 rest
  let (day, rest) ← marked? '-' 1 2 rest
  if rest.isEmpty then
    return ⟨year, month, day, none⟩
  else
    return ⟨year, month, day, some (← readClock? (← behindGap? rest))⟩

/-- Whether a plain text is read as a day or a moment. A day alone has two digits for its month and
two for itself. -/
def isPlain (text : List Char) : Bool :=
  match read? text with
  | none => false
  | some ⟨_, month, day, none⟩ => month.length == 2 && day.length == 2
  | some ⟨_, _, _, some _⟩ => true

/-- The millionth parts of a second that digits behind the point are. What is finer does not
count. -/
def microseconds (fraction : List Char) : Nat :=
  let places := fraction.take 6
  Text.digitsValue places * Nat.pow 10 (6 - places.length)

/-- How far a clock is ahead of universal time, in minutes, where it says so. -/
def offset? (clock : Clock) : Except CalendarFault (Option Int) := do
  match clock.zone? with
  | none => return none
  | some none => return some 0
  | some (some zone) =>
    let minutes : Int := 60 * Text.digitsValue zone.hour + Text.digitsValue zone.minute
    return some (← Moment.offsetOf (if zone.behind then -minutes else minutes))

/-- The day or moment that is written. The zone is looked at before the day, and the day before the
clock. -/
def meaning (timestamp : Timestamp) : Except CalendarFault Value := do
  let value := Text.digitsValue
  let day := Date.make (value timestamp.year) (value timestamp.month) (value timestamp.day)
  match timestamp.clock? with
  | none => return .date (← day)
  | some clock =>
    let ahead? ← offset? clock
    let date ← day
    let shown ← Moment.clockOf (value clock.hour) (value clock.minute) (value clock.second)
      (microseconds clock.fraction)
    return .moment ⟨date, shown, ahead?⟩

/-- The day or moment that a text is. A line feed at its end does no harm. -/
def value (text : List Char) : Except Error Value :=
  match read? (Text.dropFinalNewline text) with
  | none => .error .noSuchPart
  | some timestamp => timestamp.meaning.mapError .calendar

end Timestamp
end Yaml
end Chiptune
