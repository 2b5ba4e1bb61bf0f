/-!
# Days and moments

Days of the calendar that is in use today, run back to the year 1, and moments of such days. A
moment may say how far its clock is ahead of universal time; two moments that do are the same where
they are the same time, and a moment that does not is the same only as one that reads alike.
-/

namespace Chiptune

/-- Why something is no day or no moment. -/
inductive CalendarFault where
  | year (year : Nat)
  | month
  | day
  | hour
  | minute
  | second
  /-- A clock that is a whole day or more away from universal time, in minutes. -/
  | offset (minutes : Int)
  deriving DecidableEq, Repr

/-- A day, as it is written. -/
structure Date where
  year : Nat
  month : Nat
  day : Nat
  deriving DecidableEq, Repr

namespace Date

/-- Whether a year has a day more. -/
def isLeap (year : Nat) : Bool := year % 4 == 0 && (year % 100 != 0 || year % 400 == 0)

/-- The days of each month in a year. -/
def monthLengths (year : Nat) : List Nat :=
  [31, if isLeap year then 29 else 28, 31, 30, 31, 30, 31, 31, 30, 31, 30, 31]

/-- The day with the given numbers. -/
def make (year month day : Nat) : Except CalendarFault Date :=
  if year = 0 then .error (.year year)
  else if month = 0 ∨ 12 < month then .error .month
  else if day = 0 ∨ (monthLengths year).getD (month - 1) 0 < day then .error .day
  else .ok ⟨year, month, day⟩

/-- The days before a year. -/
def daysBeforeYear (year : Nat) : Nat :=
  let past := year - 1
  365 * past + past / 4 - past / 100 + past / 400

/-- The days of a year before a month. -/
def daysBeforeMonth (year month : Nat) : Nat :=
  ((monthLengths year).take (month - 1)).foldl (· + ·) 0

/-- The number of a day, counted from one for the first of all. -/
def ordinal (date : Date) : Nat :=
  daysBeforeYear date.year + daysBeforeMonth date.year date.month + date.day

end Date

/-- A moment of a day by its clock. -/
structure Moment where
  date : Date
  /-- The microseconds that the clock shows. -/
  clock : Nat
  /-- How many minutes the clock is ahead of universal time, where it says so. -/
  offset? : Option Int := none
  deriving DecidableEq, Repr

namespace Moment

/-- The microseconds of a minute. -/
def minute : Nat := 60000000

/-- What a clock shows. -/
def clockOf (hour minute second microsecond : Nat) : Except CalendarFault Nat :=
  if 23 < hour then .error .hour
  else if 59 < minute then .error .minute
  else if 59 < second then .error .second
  else .ok (((hour * 60 + minute) * 60 + second) * 1000000 + microsecond)

/-- A distance from universal time, less than a day either way. -/
def offsetOf (minutes : Int) : Except CalendarFault Int :=
  if -1440 < minutes ∧ minutes < 1440 then .ok minutes else .error (.offset minutes)

/-- The time of a moment in microseconds, by its own clock. -/
def clockTime (moment : Moment) : Int := moment.date.ordinal * (1440 * minute : Nat) + moment.clock

/-- The time of a moment in microseconds, where its clock says how far it is ahead. -/
def universal? (moment : Moment) : Option Int :=
  moment.offset?.map fun offset => moment.clockTime - offset * minute

/-- Whether two moments are the same. -/
def isSame (a b : Moment) : Bool :=
  match a.universal?, b.universal? with
  | some s, some t => s == t
  | none, none => a.clockTime == b.clockTime
  | _, _ => false

end Moment

end Chiptune
