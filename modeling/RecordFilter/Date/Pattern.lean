/-
Date patterns.

A pattern is a list of items: bytes that have to stand as they are, components
of a date or time, parts that may be missing, and choices between parts.
-/

namespace RecordFilter
namespace Date

inductive Padding where
  | zero
  | space
  | none
deriving DecidableEq, Repr, Inhabited

inductive YearForm where
  | full
  | century
  | lastTwo
deriving DecidableEq, Repr, Inhabited

inductive MonthForm where
  | numerical
  | long
  | short
deriving DecidableEq, Repr, Inhabited

/-- How a day of the week is written: by name, or by number from Sunday or Monday. -/
inductive WeekdayForm where
  | long
  | short
  | fromSunday
  | fromMonday
deriving DecidableEq, Repr, Inhabited

inductive WeekForm where
  | iso
  | sunday
  | monday
deriving DecidableEq, Repr, Inhabited

inductive Component where
  | year (padding : Padding) (form : YearForm) (iso signRequired : Bool)
  | month (padding : Padding) (form : MonthForm) (caseSensitive : Bool)
  | day (padding : Padding)
  | ordinal (padding : Padding)
  | weekNumber (padding : Padding) (form : WeekForm)
  | weekday (form : WeekdayForm) (oneIndexed caseSensitive : Bool)
  | hour (padding : Padding) (twelve : Bool)
  | minute (padding : Padding)
  | second (padding : Padding)
  | period (upper caseSensitive : Bool)
  /-- A fraction of a second; without a count, as many digits as there are. -/
  | subsecond (digits : Option Nat)
  | offsetHour (padding : Padding) (signRequired : Bool)
  | offsetMinute (padding : Padding)
  | offsetSecond (padding : Padding)
  /-- A count of time units with at most `width` digits. -/
  | timestamp (width : Nat) (signRequired : Bool)
  | skip (count : Nat)
  | finish (drops : Bool)
deriving DecidableEq, Repr, Inhabited

inductive Item where
  | literal (bytes : List UInt8)
  | component (component : Component)
  | optional (items : List Item)
  | first (alternatives : List (List Item))
deriving Inhabited, Repr

abbrev Pattern := List Item

end Date
end RecordFilter
