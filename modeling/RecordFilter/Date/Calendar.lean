/-
The Gregorian calendar.

The calendar is extended to all years, the year 0 and the years before it
included.  A day is a year and its number in that year; the other ways to name a
day, by month, by week of the year and by ISO week, are turned into this one.
-/

namespace RecordFilter
namespace Date

/-! ### Years and months -/

def isLeap (year : Int) : Bool :=
  year % 4 = 0 && (year % 100 != 0 || year % 400 = 0)

def yearLength (year : Int) : Nat := if isLeap year then 366 else 365

def monthLength (year : Int) (month : Nat) : Nat :=
  if month = 2 then (if isLeap year then 29 else 28)
  else if month = 4 || month = 6 || month = 9 || month = 11 then 30
  else 31

def daysBeforeMonth (year : Int) (month : Nat) : Nat :=
  ((List.range month).filter (0 < ·)).foldl (fun days m => days + monthLength year m) 0

def daysBeforeYear (year : Int) : Int :=
  let before := year - 1
  365 * before + before / 4 - before / 100 + before / 400

/-- The day of the week of the first day of a year, with zero for Monday.  The
year 1 began on a Monday. -/
def firstWeekday (year : Int) : Nat := (daysBeforeYear year % 7).toNat

/-! ### Days -/

/-- A day of the calendar: its year and its number in the year, counted from one. -/
structure Day where
  year : Int
  ordinal : Nat
deriving DecidableEq, Repr, Inhabited

namespace Day

def ofOrdinal? (year : Int) (ordinal : Nat) : Option Day :=
  if 1 ≤ ordinal && ordinal ≤ yearLength year then some ⟨year, ordinal⟩ else none

def ofMonthDay? (year : Int) (month day : Nat) : Option Day :=
  if 1 ≤ month && month ≤ 12 && 1 ≤ day && day ≤ monthLength year month then
    some ⟨year, daysBeforeMonth year month + day⟩
  else none

def ofOffset? (year : Int) (offset : Int) : Option Day :=
  if 1 ≤ offset then ofOrdinal? year offset.toNat else none

/-- The day of a week that begins on Monday; the first week begins with the first
Monday.  `weekday` is counted from Monday. -/
def ofMondayWeek? (year : Int) (week weekday : Nat) : Option Day :=
  let firstMonday : Int := 1 + (7 - firstWeekday year) % 7
  ofOffset? year (firstMonday + 7 * ((week : Int) - 1) + weekday)

/-- The day of a week that begins on Sunday; the first week begins with the first
Sunday.  `weekday` is counted from Sunday. -/
def ofSundayWeek? (year : Int) (week weekday : Nat) : Option Day :=
  let firstSunday : Int := 1 + (6 - firstWeekday year) % 7
  ofOffset? year (firstSunday + 7 * ((week : Int) - 1) + weekday)

/-- The number of ISO weeks of a year: 53 if it begins on a Thursday, or is a leap
year that begins on a Wednesday. -/
def isoWeeks (year : Int) : Nat :=
  if firstWeekday year = 3 || (isLeap year && firstWeekday year = 2) then 53 else 52

/-- The day of an ISO week; the first week holds the 4th of January, so a week may
reach into the neighbouring years.  `weekday` is counted from Monday. -/
def ofIsoWeek? (year : Int) (week weekday : Nat) : Option Day :=
  if 1 ≤ week && week ≤ isoWeeks year then
    let firstMonday : Int := 4 - (firstWeekday year + 3) % 7
    let offset := firstMonday + 7 * ((week : Int) - 1) + weekday
    if offset < 1 then some ⟨year - 1, (offset + yearLength (year - 1)).toNat⟩
    else if (yearLength year : Int) < offset then
      some ⟨year + 1, (offset - yearLength year).toNat⟩
    else some ⟨year, offset.toNat⟩
  else none

end Day

/-! ### Moments -/

structure Clock where
  hour : Nat
  minute : Nat
  second : Nat
  nanosecond : Nat
deriving DecidableEq, Repr, Inhabited

namespace Clock

def midnight : Clock := ⟨0, 0, 0, 0⟩

def of? (hour minute second nanosecond : Nat) : Option Clock :=
  if hour < 24 && minute < 60 && second < 60 && nanosecond < 1000000000 then
    some ⟨hour, minute, second, nanosecond⟩
  else none

end Clock

structure Moment where
  day : Day
  clock : Clock
deriving DecidableEq, Repr, Inhabited

def Moment.parts (m : Moment) : List Int :=
  [m.day.year, m.day.ordinal, m.clock.hour, m.clock.minute, m.clock.second,
   m.clock.nanosecond]

def orderParts : List Int → List Int → Ordering
  | [], [] => .eq
  | [], _ :: _ => .lt
  | _ :: _, [] => .gt
  | a :: as, b :: bs => if a < b then .lt else if b < a then .gt else orderParts as bs

def Moment.order (left right : Moment) : Ordering := orderParts left.parts right.parts

end Date
end RecordFilter
