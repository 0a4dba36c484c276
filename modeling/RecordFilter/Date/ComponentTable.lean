/-
The components of date patterns, with the modifiers that each one takes.

A component is found by its name and set up by modifiers, key and value; names,
keys and values are matched in any case.  Of several modifiers with one key the
last one counts.
-/
import RecordFilter.Date.Pattern
import RecordFilter.Date.PatternFault

namespace RecordFilter
namespace Date

/-! ### Options -/

structure Options where
  padding : Padding := .zero
  yearForm : YearForm := .full
  iso : Bool := false
  signRequired : Bool := false
  monthForm : MonthForm := .numerical
  caseSensitive : Bool := true
  weekForm : WeekForm := .iso
  weekdayForm : WeekdayForm := .long
  oneIndexed : Bool := true
  twelve : Bool := false
  upper : Bool := true
  digits : Option Nat := none
  timestampWidth : Nat := 14
  count : Option Nat := none
  drops : Bool := false
  written : Bool := true

/-- A modifier: its key and what its values do; a value it does not take does
nothing. -/
structure Setting where
  key : String
  set? : String → Options → Option Options

def Setting.choose (key : String) (values : List (String × (Options → Options))) : Setting where
  key := key
  set? value options := (values.lookup value).map fun change => change options

def paddingSetting : Setting := .choose "padding"
  [("zero", fun o => { o with padding := .zero }),
   ("space", fun o => { o with padding := .space }),
   ("none", fun o => { o with padding := .none })]

def signSetting : Setting := .choose "sign"
  [("automatic", fun o => { o with signRequired := false }),
   ("mandatory", fun o => { o with signRequired := true })]

def caseSetting : Setting := .choose "case_sensitive"
  [("true", fun o => { o with caseSensitive := true }),
   ("false", fun o => { o with caseSensitive := false })]

def yearFormSetting : Setting := .choose "repr"
  [("full", fun o => { o with yearForm := .full }),
   ("century", fun o => { o with yearForm := .century }),
   ("last_two", fun o => { o with yearForm := .lastTwo })]

def yearBaseSetting : Setting := .choose "base"
  [("calendar", fun o => { o with iso := false }),
   ("iso_week", fun o => { o with iso := true })]

/-- The range of a year makes no difference, since years have four digits. -/
def yearRangeSetting : Setting := .choose "range" [("standard", id), ("extended", id)]

def monthFormSetting : Setting := .choose "repr"
  [("numerical", fun o => { o with monthForm := .numerical }),
   ("long", fun o => { o with monthForm := .long }),
   ("short", fun o => { o with monthForm := .short })]

def weekFormSetting : Setting := .choose "repr"
  [("iso", fun o => { o with weekForm := .iso }),
   ("sunday", fun o => { o with weekForm := .sunday }),
   ("monday", fun o => { o with weekForm := .monday })]

def weekdayFormSetting : Setting := .choose "repr"
  [("long", fun o => { o with weekdayForm := .long }),
   ("short", fun o => { o with weekdayForm := .short }),
   ("sunday", fun o => { o with weekdayForm := .fromSunday }),
   ("monday", fun o => { o with weekdayForm := .fromMonday })]

def oneIndexedSetting : Setting := .choose "one_indexed"
  [("true", fun o => { o with oneIndexed := true }),
   ("false", fun o => { o with oneIndexed := false })]

def hourFormSetting : Setting := .choose "repr"
  [("24", fun o => { o with twelve := false }),
   ("12", fun o => { o with twelve := true })]

def periodCaseSetting : Setting := .choose "case"
  [("upper", fun o => { o with upper := true }),
   ("lower", fun o => { o with upper := false })]

def digitsSetting : Setting := .choose "digits"
  (("1+", fun o => { o with digits := none }) ::
    (List.range 9).map fun n => (toString (n + 1), fun o => { o with digits := some (n + 1) }))

def precisionSetting : Setting := .choose "precision"
  [("second", fun o => { o with timestampWidth := 14 }),
   ("millisecond", fun o => { o with timestampWidth := 17 }),
   ("microsecond", fun o => { o with timestampWidth := 20 }),
   ("nanosecond", fun o => { o with timestampWidth := 23 })]

def trailingSetting : Setting := .choose "trailing_input"
  [("prohibit", fun o => { o with drops := false }),
   ("discard", fun o => { o with drops := true })]

/-- Whether an optional part is written; a part that is not cannot be had here. -/
def writtenSetting : Setting := .choose "format"
  [("true", fun o => { o with written := true }),
   ("false", fun o => { o with written := false })]

def readCount? (value : String) : Option Nat :=
  let digits :=
    match value.toList with
    | '+' :: rest => rest
    | other => other
  if digits.isEmpty || !digits.all Char.isDigit then none
  else
    let count := digits.foldl (fun n c => 10 * n + (c.toNat - '0'.toNat)) 0
    if 0 < count && count < 0x10000 then some count else none

def countSetting : Setting where
  key := "count"
  set? value options := (readCount? value).map fun n => { options with count := some n }

/-! ### The table -/

structure Kind where
  name : String
  settings : List Setting
  build : Options → Except String Component

def kinds : List Kind :=
  [⟨"year", [paddingSetting, yearFormSetting, yearRangeSetting, yearBaseSetting, signSetting],
      fun o => .ok (.year o.padding o.yearForm o.iso o.signRequired)⟩,
   ⟨"month", [paddingSetting, monthFormSetting, caseSetting],
      fun o => .ok (.month o.padding o.monthForm o.caseSensitive)⟩,
   ⟨"day", [paddingSetting], fun o => .ok (.day o.padding)⟩,
   ⟨"ordinal", [paddingSetting], fun o => .ok (.ordinal o.padding)⟩,
   ⟨"week_number", [paddingSetting, weekFormSetting],
      fun o => .ok (.weekNumber o.padding o.weekForm)⟩,
   ⟨"weekday", [weekdayFormSetting, oneIndexedSetting, caseSetting],
      fun o => .ok (.weekday o.weekdayForm o.oneIndexed o.caseSensitive)⟩,
   ⟨"hour", [paddingSetting, hourFormSetting], fun o => .ok (.hour o.padding o.twelve)⟩,
   ⟨"minute", [paddingSetting], fun o => .ok (.minute o.padding)⟩,
   ⟨"second", [paddingSetting], fun o => .ok (.second o.padding)⟩,
   ⟨"period", [periodCaseSetting, caseSetting], fun o => .ok (.period o.upper o.caseSensitive)⟩,
   ⟨"subsecond", [digitsSetting], fun o => .ok (.subsecond o.digits)⟩,
   ⟨"offset_hour", [signSetting, paddingSetting],
      fun o => .ok (.offsetHour o.padding o.signRequired)⟩,
   ⟨"offset_minute", [paddingSetting], fun o => .ok (.offsetMinute o.padding)⟩,
   ⟨"offset_second", [paddingSetting], fun o => .ok (.offsetSecond o.padding)⟩,
   ⟨"unix_timestamp", [precisionSetting, signSetting],
      fun o => .ok (.timestamp o.timestampWidth o.signRequired)⟩,
   ⟨"ignore", [countSetting],
      fun o =>
        match o.count with
        | some count => .ok (.skip count)
        | none => .error "count"⟩,
   ⟨"end", [trailingSetting], fun o => .ok (.finish o.drops)⟩]

/-! ### Modifiers -/

structure Word where
  text : String
  index : Nat
deriving DecidableEq, Repr, Inhabited

def lower (text : String) : String := String.ofList (text.toList.map Char.toLower)

structure Modifier where
  key : Word
  value : Word
deriving DecidableEq, Repr, Inhabited

def applyModifier (settings : List Setting) (options : Options) (modifier : Modifier) :
    Except PatternFault Options :=
  match settings.find? fun setting => setting.key = lower modifier.key.text with
  | none => .error (.badModifier modifier.key.text modifier.key.index)
  | some setting =>
      match setting.set? (lower modifier.value.text) options with
      | none => .error (.badModifier modifier.value.text modifier.value.index)
      | some changed => .ok changed

def applyModifiers (settings : List Setting) :
    Options → List Modifier → Except PatternFault Options
  | options, [] => .ok options
  | options, modifier :: modifiers =>
      match applyModifier settings options modifier with
      | .error fault => .error fault
      | .ok changed => applyModifiers settings changed modifiers

def Component.named (name : Word) (modifiers : List Modifier) : Except PatternFault Component :=
  match kinds.find? fun kind => kind.name = lower name.text with
  | none => .error (.unknownName name.text name.index)
  | some kind =>
      match applyModifiers kind.settings {} modifiers with
      | .error fault => .error fault
      | .ok options =>
          match kind.build options with
          | .ok made => .ok made
          | .error key => .error (.missingModifier key name.index)

end Date
end RecordFilter
