/-
Dates from text, by a pattern.

The items of a pattern are read one after the other, without going back behind
an item that fitted.  An optional part that does not fit is passed over, a
choice takes the first part that fits, and a part that does not fit leaves no
trace.  A text is a date when the pattern takes all of it and the components
name a day.
-/
import RecordFilter.Date.Found
import RecordFilter.Date.Pattern
import RecordFilter.Text.Bytes

namespace RecordFilter
namespace Date

/-! ### Numbers -/

def isDigitByte (b : UInt8) : Bool := 48 ≤ b && b ≤ 57

def frontDigits : Nat → List UInt8 → List UInt8
  | _, [] => []
  | 0, _ => []
  | most + 1, b :: bs => if isDigitByte b then b :: frontDigits most bs else []

def digitsNumber (digits : List UInt8) : Nat :=
  digits.foldl (fun n b => 10 * n + (b.toNat - 48)) 0

/-- A number at the front with at least `least` and at most `most` digits. -/
def readDigits? (least most : Nat) (input : List UInt8) : Option (Nat × List UInt8) :=
  let digits := frontDigits most input
  if digits.length < least then none
  else some (digitsNumber digits, input.drop digits.length)

def frontBlanks : Nat → List UInt8 → Nat
  | most + 1, b :: bs => if b = 32 then frontBlanks most bs + 1 else 0
  | _, _ => 0

/-- A number at the front that fills `least` to `most` places. -/
def readPadded? (padding : Padding) (least most : Nat) (input : List UInt8) :
    Option (Nat × List UInt8) :=
  match padding with
  | .zero => readDigits? least most input
  | .none => readDigits? 1 most input
  | .space =>
      let blanks := frontBlanks (least - 1) input
      readDigits? (least - blanks) (most - blanks) (input.drop blanks)

def readSign : List UInt8 → Option Bool × List UInt8
  | b :: bs => if b = 45 then (some true, bs) else if b = 43 then (some false, bs) else (none, b :: bs)
  | [] => (none, [])

/-! ### Words -/

def lowerByte (b : UInt8) : UInt8 := if 65 ≤ b && b ≤ 90 then b + 32 else b

def afterWord? (caseSensitive : Bool) (word : List Char) (input : List UInt8) :
    Option (List UInt8) :=
  let expected := Text.bytes word
  let front := input.take expected.length
  if front = expected || (!caseSensitive && front.map lowerByte = expected.map lowerByte) then
    some (input.drop expected.length)
  else none

def readWord? (caseSensitive : Bool) (start : Nat) : List String → List UInt8 →
    Option (Nat × List UInt8)
  | [], _ => none
  | word :: words, input =>
      match afterWord? caseSensitive word.toList input with
      | some rest => some (start, rest)
      | none => readWord? caseSensitive (start + 1) words input

def monthNames : List String :=
  ["January", "February", "March", "April", "May", "June", "July", "August", "September",
   "October", "November", "December"]

def weekdayNames : List String :=
  ["Monday", "Tuesday", "Wednesday", "Thursday", "Friday", "Saturday", "Sunday"]

def abbreviate (name : String) : String := String.ofList (name.toList.take 3)

/-! ### Components -/

def within (low high : Nat) (set : Nat → Found) (read : Option (Nat × List UInt8)) :
    Option (Found × List UInt8) :=
  match read with
  | some (n, rest) => if low ≤ n && n ≤ high then some (set n, rest) else none
  | none => none

/-- A signed number of `least` to `most` digits; without a sign, of `unsigned` to
`most` digits. -/
def readSigned? (padding : Padding) (signRequired : Bool) (least unsigned most : Nat)
    (input : List UInt8) : Option (Century × List UInt8) :=
  match readSign input with
  | (some negative, rest) =>
      (readPadded? padding least most rest).map fun (n, after) =>
        (⟨if negative then -(n : Int) else n, negative⟩, after)
  | (none, rest) =>
      if signRequired then none
      else (readPadded? padding unsigned most rest).map fun (n, after) => (⟨n, false⟩, after)

def readYear? (padding : Padding) (form : YearForm) (signRequired : Bool) (year : FoundYear)
    (input : List UInt8) : Option (FoundYear × List UInt8) :=
  match form with
  | .full =>
      (readSigned? padding signRequired 4 4 4 input).map fun (n, rest) =>
        ({ year with whole := some n.value }, rest)
  | .century =>
      (readSigned? padding signRequired 2 1 2 input).map fun (n, rest) =>
        ({ year with century := some n }, rest)
  | .lastTwo =>
      (readPadded? padding 2 2 input).map fun (n, rest) =>
        ({ year with lastTwo := some n }, rest)

def readWeekday? (form : WeekdayForm) (oneIndexed caseSensitive : Bool) (input : List UInt8) :
    Option (Nat × List UInt8) :=
  let base := if oneIndexed then 1 else 0
  let number : Option (Nat × List UInt8) :=
    (readDigits? 1 1 input).bind fun (n, rest) =>
      if base ≤ n && n < base + 7 then some (n - base, rest) else none
  match form with
  | .long => readWord? caseSensitive 0 weekdayNames input
  | .short => readWord? caseSensitive 0 (weekdayNames.map abbreviate) input
  | .fromMonday => number
  | .fromSunday => number.map fun (n, rest) => ((n + 6) % 7, rest)

/-- A fraction of a second in nanoseconds; digits behind the ninth do not count. -/
def readFraction? (digits : Option Nat) (input : List UInt8) : Option (Nat × List UInt8) :=
  let most := digits.getD input.length
  let front := frontDigits most input
  if front.length < digits.getD 1 then none
  else
    let counted := front.take 9
    some (digitsNumber counted * Nat.pow 10 (9 - counted.length), input.drop front.length)

/-- A distance from a reference time; it is checked and has no effect. -/
def checkOffset (low high : Int) (found : Found) (read : Option (Century × List UInt8)) :
    Option (Found × List UInt8) :=
  match read with
  | some (n, rest) => if low ≤ n.value && n.value ≤ high then some (found, rest) else none
  | none => none

def readComponent? (component : Component) (found : Found) (input : List UInt8) :
    Option (Found × List UInt8) :=
  match component with
  | .year padding form iso signRequired =>
      if iso then
        (readYear? padding form signRequired found.isoYear input).map fun (year, rest) =>
          ({ found with isoYear := year }, rest)
      else
        (readYear? padding form signRequired found.year input).map fun (year, rest) =>
          ({ found with year := year }, rest)
  | .month padding .numerical _ =>
      within 1 12 (fun n => { found with month := some n }) (readPadded? padding 2 2 input)
  | .month _ .long caseSensitive =>
      within 1 12 (fun n => { found with month := some n })
        (readWord? caseSensitive 1 monthNames input)
  | .month _ .short caseSensitive =>
      within 1 12 (fun n => { found with month := some n })
        (readWord? caseSensitive 1 (monthNames.map abbreviate) input)
  | .day padding =>
      within 1 31 (fun n => { found with day := some n }) (readPadded? padding 2 2 input)
  | .ordinal padding =>
      within 1 366 (fun n => { found with ordinal := some n }) (readPadded? padding 3 3 input)
  | .weekNumber padding .iso =>
      within 1 53 (fun n => { found with isoWeek := some n }) (readPadded? padding 2 2 input)
  | .weekNumber padding .sunday =>
      within 0 53 (fun n => { found with sundayWeek := some n }) (readPadded? padding 2 2 input)
  | .weekNumber padding .monday =>
      within 0 53 (fun n => { found with mondayWeek := some n }) (readPadded? padding 2 2 input)
  | .weekday form oneIndexed caseSensitive =>
      within 0 6 (fun n => { found with weekday := some n })
        (readWeekday? form oneIndexed caseSensitive input)
  | .hour padding false =>
      within 0 23 (fun n => { found with hour := some n }) (readPadded? padding 2 2 input)
  | .hour padding true =>
      within 1 12 (fun n => { found with hourOfTwelve := some n }) (readPadded? padding 2 2 input)
  | .minute padding =>
      within 0 59 (fun n => { found with minute := some n }) (readPadded? padding 2 2 input)
  | .second padding =>
      within 0 60 (fun n => { found with second := some n }) (readPadded? padding 2 2 input)
  | .period upper caseSensitive =>
      within 0 1 (fun n => { found with isAfternoon := some (n = 1) })
        (readWord? (upper && caseSensitive) 0 ["AM", "PM"] input)
  | .subsecond digits =>
      (readFraction? digits input).map fun (n, rest) => ({ found with nanosecond := some n }, rest)
  | .offsetHour padding signRequired =>
      checkOffset (-25) 25 found (readSigned? padding signRequired 2 2 2 input)
  | .offsetMinute padding => within 0 59 (fun _ => found) (readPadded? padding 2 2 input)
  | .offsetSecond padding => within 0 59 (fun _ => found) (readPadded? padding 2 2 input)
  | .timestamp width signRequired =>
      (readSigned? .zero signRequired 1 1 width input).map fun (_, rest) => (found, rest)
  | .skip count => if count ≤ input.length then some (found, input.drop count) else none
  | .finish true => some (found, [])
  | .finish false => if input.isEmpty then some (found, []) else none

/-! ### Items -/

mutual

def Item.read? : Item → Found → List UInt8 → Option (Found × List UInt8)
  | .literal bytes, found, input =>
      if bytes.isPrefixOf input then some (found, input.drop bytes.length) else none
  | .component component, found, input => readComponent? component found input
  | .optional items, found, input =>
      match readItems? items found input with
      | some read => some read
      | none => some (found, input)
  | .first alternatives, found, input => readFirst? alternatives found input

def readItems? : List Item → Found → List UInt8 → Option (Found × List UInt8)
  | [], found, input => some (found, input)
  | item :: items, found, input =>
      match item.read? found input with
      | some (next, rest) => readItems? items next rest
      | none => none

def readFirst? : List (List Item) → Found → List UInt8 → Option (Found × List UInt8)
  | [], _, _ => none
  | items :: alternatives, found, input =>
      match readItems? items found input with
      | some read => some read
      | none => readFirst? alternatives found input

end

def Pattern.found? (pattern : Pattern) (text : List Char) : Option Found :=
  match readItems? pattern {} (Text.bytes text) with
  | some (found, []) => some found
  | _ => none

def Pattern.moment? (pattern : Pattern) (text : List Char) : Option Moment :=
  match pattern.found? text with
  | some found => found.moment?
  | none => none

end Date
end RecordFilter
