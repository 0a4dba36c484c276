/-
Dates and times from their components.

While a text is read the components found so far are kept in a `Found`; a later
component of the same kind replaces an earlier one.  Only afterwards is it asked
whether they name a day, and whether they name a time of day.
-/
import RecordFilter.Date.Calendar

namespace RecordFilter
namespace Date

structure Century where
  value : Int
  negative : Bool
deriving DecidableEq, Repr, Inhabited

structure FoundYear where
  whole : Option Int := none
  century : Option Century := none
  lastTwo : Option Nat := none
deriving DecidableEq, Repr, Inhabited

def FoundYear.value? (found : FoundYear) : Option Int :=
  match found.whole, found.century, found.lastTwo with
  | some year, _, _ => some year
  | none, some century, some lastTwo =>
      if century.negative then some (100 * century.value - lastTwo)
      else some (100 * century.value + lastTwo)
  | none, _, _ => none

/-- The components found in a text.  Days of the week are counted from Monday,
beginning with zero. -/
structure Found where
  year : FoundYear := {}
  isoYear : FoundYear := {}
  month : Option Nat := none
  day : Option Nat := none
  ordinal : Option Nat := none
  isoWeek : Option Nat := none
  sundayWeek : Option Nat := none
  mondayWeek : Option Nat := none
  weekday : Option Nat := none
  hour : Option Nat := none
  hourOfTwelve : Option Nat := none
  isAfternoon : Option Bool := none
  minute : Option Nat := none
  second : Option Nat := none
  nanosecond : Option Nat := none
deriving DecidableEq, Repr, Inhabited

namespace Found

/-- The day that the components name.  The first complete way to name one
decides: by number in the year, by month, by ISO week, by week from Sunday, by
week from Monday. -/
def day? (found : Found) : Option Day :=
  match found.year.value?, found.ordinal with
  | some year, some ordinal => Day.ofOrdinal? year ordinal
  | year, _ =>
      match year, found.month, found.day with
      | some year, some month, some day => Day.ofMonthDay? year month day
      | _, _, _ =>
          match found.isoYear.value?, found.isoWeek, found.weekday with
          | some isoYear, some week, some weekday => Day.ofIsoWeek? isoYear week weekday
          | _, _, _ =>
              match year, found.sundayWeek, found.mondayWeek, found.weekday with
              | some year, some week, _, some weekday =>
                  Day.ofSundayWeek? year week ((weekday + 1) % 7)
              | some year, none, some week, some weekday => Day.ofMondayWeek? year week weekday
              | _, _, _, _ => none

def hour? (found : Found) : Option Nat :=
  match found.hour, found.hourOfTwelve, found.isAfternoon with
  | some hour, _, _ => some hour
  | none, some hour, some afternoon =>
      some (hour % 12 + if afternoon then 12 else 0)
  | none, _, _ => none

/-- The time of day that the components name: an hour, and as far as they go
minute, second and fraction, none of them without the one before. -/
def clock? (found : Found) : Option Clock :=
  match found.hour?, found.minute, found.second, found.nanosecond with
  | some hour, none, none, none => Clock.of? hour 0 0 0
  | some hour, some minute, none, none => Clock.of? hour minute 0 0
  | some hour, some minute, some second, none => Clock.of? hour minute second 0
  | some hour, some minute, some second, some nanosecond =>
      Clock.of? hour minute second nanosecond
  | _, _, _, _ => none

/-- The moment that the components name.  Without a time of day it is the first
moment of the day. -/
def moment? (found : Found) : Option Moment :=
  match found.day? with
  | none => none
  | some day =>
      match found.clock? with
      | some clock => some ⟨day, clock⟩
      | none => some ⟨day, .midnight⟩

end Found
end Date
end RecordFilter
