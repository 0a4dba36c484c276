/-
Strings, numbers and moments of a settings statement.

A string stands between double quotes, with escapes, or between single quotes;
three quotes enclose a text of several lines, which drops a line break at its
front.  A number may have underscores between digits.  A moment is a date, a
time of day, or both, and counts by its text.
-/
import RecordFilter.Date.Calendar
import RecordFilter.Settings.Literal
import RecordFilter.Settings.Node
import RecordFilter.Text.Split

namespace RecordFilter
namespace Settings
namespace Toml

/-! ### Characters -/

def isPrintable (c : Char) : Bool := c = '\t' || (0x20 ≤ c.toNat && c ≠ '\x7f')

def afterBreak? : List Char → Option (List Char)
  | '\n' :: rest => some rest
  | '\r' :: '\n' :: rest => some rest
  | _ => none

/-! ### Strings -/

def escape? : List Char → Option (Char × Nat)
  | 'b' :: _ => some ('\x08', 1)
  | 't' :: _ => some ('\t', 1)
  | 'n' :: _ => some ('\n', 1)
  | 'f' :: _ => some ('\x0c', 1)
  | 'r' :: _ => some ('\r', 1)
  | 'e' :: _ => some ('\x1b', 1)
  | '"' :: _ => some ('"', 1)
  | '\\' :: _ => some ('\\', 1)
  | 'x' :: digits =>
      if digits.length < 2 then none else (codeChar? (digits.take 2)).map fun c => (c, 3)
  | 'u' :: digits =>
      if digits.length < 4 then none else (codeChar? (digits.take 4)).map fun c => (c, 5)
  | 'U' :: digits =>
      if digits.length < 8 then none else (codeChar? (digits.take 8)).map fun c => (c, 9)
  | _ => none

def consFound (c : Char) (found : Option (List Char × List Char)) :
    Option (List Char × List Char) :=
  found.map fun (text, rest) => (c :: text, rest)

/-- A string on one line up to its closing quote, and what follows it, as it
begins behind `skipped` characters of an escape. -/
def readLine? (quote : Char) (skipped : Nat) : List Char → Option (List Char × List Char)
  | [] => none
  | c :: rest =>
      match skipped with
      | skipped + 1 => readLine? quote skipped rest
      | 0 =>
          if c = quote then some ([], rest)
          else if c = '\\' && quote = '"' then
            match escape? rest with
            | some (denoted, count) => consFound denoted (readLine? quote count rest)
            | none => none
          else if isPrintable c then consFound c (readLine? quote 0 rest)
          else none

def countQuotes (quote : Char) (text : List Char) : Nat :=
  ((text.take 5).takeWhile (· == quote)).length

/-- A string of several lines up to its closing quotes, and what follows them.
Up to two quotes may stand in front of the closing ones.  A backslash at the end
of a line takes away the blanks and line breaks that follow; `trims` says that
this is going on. -/
def readLines? (quote : Char) (skipped : Nat) (trims : Bool) :
    List Char → Option (List Char × List Char)
  | [] => none
  | c :: rest =>
      match skipped with
      | skipped + 1 => readLines? quote skipped false rest
      | 0 =>
          if trims && (isBlank c || c = '\n' || c = '\r' && (afterBreak? (c :: rest)).isSome) then
            readLines? quote 0 true rest
          else
            let quotes := countQuotes quote (c :: rest)
            if 3 ≤ quotes then some (List.replicate (quotes - 3) quote, rest.drop (quotes - 1))
            else if c = '\\' && quote = '"' then
              if (afterBreak? (rest.dropWhile isBlank)).isSome then readLines? quote 0 true rest
              else
                match escape? rest with
                | some (denoted, count) => consFound denoted (readLines? quote count false rest)
                | none => none
            else if c = '\r' && (afterBreak? (c :: rest)).isSome then readLines? quote 0 false rest
            else if isPrintable c || c = '\n' then consFound c (readLines? quote 0 false rest)
            else none

def readString? : List Char → Option (List Char × List Char)
  | [] => none
  | quote :: rest =>
      if quote ≠ '"' && quote ≠ '\'' then none
      else if countQuotes quote (quote :: rest) < 3 then readLine? quote 0 rest
      else
        let text := rest.drop 2
        readLines? quote 0 false ((afterBreak? text).getD text)

/-! ### Numbers -/

/-- Digits without the underscores between them; there are none when an
underscore does not stand between two digits. -/
def joinDigits? (isDigit : Char → Bool) (text : List Char) : Option (List Char) :=
  let pieces := Text.split '_' text
  if pieces.all fun piece => !piece.isEmpty && piece.all isDigit then some pieces.flatten
  else none

def integerNode? (n : Int) : Option Node := (within64? n).map Node.integer

def basedNode? (base : Nat) (text : List Char) : Option Node :=
  match joinDigits? (fun c => (digitIn? base c).isSome) text with
  | none => none
  | some digits => (digitsIn? base 0 digits).bind fun size => integerNode? size

/-- A whole part in base ten: a single zero, or digits that do not begin with one. -/
def wholeDigits? (text : List Char) : Option (List Char) :=
  match joinDigits? Char.isDigit text with
  | some ('0' :: _ :: _) => none
  | found => found

def exponentDigits? (text : List Char) : Option (List Char) :=
  match text with
  | '-' :: digits => (joinDigits? Char.isDigit digits).map fun digits => 'e' :: '-' :: digits
  | '+' :: digits => (joinDigits? Char.isDigit digits).map fun digits => 'e' :: digits
  | digits => (joinDigits? Char.isDigit digits).map fun digits => 'e' :: digits

def decimalDigits? : List Char → Option (List Char)
  | '.' :: rest =>
      let fraction := rest.takeWhile fun c => c != 'e' && c != 'E'
      match joinDigits? Char.isDigit fraction, rest.drop fraction.length with
      | some digits, [] => some ('.' :: digits)
      | some digits, _ :: exponent =>
          (exponentDigits? exponent).map fun more => '.' :: digits ++ more
      | none, _ => none
  | _ :: exponent => exponentDigits? exponent
  | [] => none

def decimalNode? (negative : Bool) (text : List Char) : Option Node :=
  let whole := text.takeWhile fun c => c != '.' && c != 'e' && c != 'E'
  match wholeDigits? whole, text.drop whole.length with
  | none, _ => none
  | some digits, [] =>
      let size : Int := Decimal.digitsValue 0 digits
      integerNode? (if negative then -size else size)
  | some digits, rest =>
      match decimalDigits? rest with
      | none => none
      | some more =>
          match Decimal.readFloat? (digits ++ more) with
          | none => none
          | some size =>
              if size.isFinite then some (.float (if negative then -size else size)) else none

def numberNode? (text : List Char) : Option Node :=
  match text with
  | '0' :: 'x' :: digits => basedNode? 16 digits
  | '0' :: 'o' :: digits => basedNode? 8 digits
  | '0' :: 'b' :: digits => basedNode? 2 digits
  | _ =>
      let (negative, size) := Decimal.spanSign text
      if size = "inf".toList then
        some (.float (if negative then -Decimal.infinity else Decimal.infinity))
      else if size = "nan".toList then (Decimal.readFloat? text).map Node.float
      else decimalNode? negative size

/-! ### Moments -/

def twoDigits? : List Char → Option (Nat × List Char)
  | a :: b :: rest =>
      if a.isDigit && b.isDigit then some (10 * Decimal.digitValue a + Decimal.digitValue b, rest)
      else none
  | _ => none

def padded (width n : Nat) : List Char :=
  let digits := Nat.toDigits 10 n
  List.replicate (width - digits.length) '0' ++ digits

def readDate? (text : List Char) : Option (List Char × List Char) :=
  match twoDigits? text with
  | none => none
  | some (century, rest) =>
      match twoDigits? rest with
      | some (year, '-' :: rest) =>
          match twoDigits? rest with
          | some (month, '-' :: rest) =>
              match twoDigits? rest with
              | some (day, rest) =>
                  if (Date.Day.ofMonthDay? (100 * century + year) month day).isSome then
                    some (padded 4 (100 * century + year) ++ '-' :: padded 2 month ++
                      '-' :: padded 2 day, rest)
                  else none
              | none => none
          | _ => none
      | _ => none

/-- A fraction of a second at the front of a text, in nine places at most and
without zeros at its end. -/
def readFraction? : List Char → Option (List Char × List Char)
  | '.' :: rest =>
      let (digits, after) := Decimal.spanDigits rest
      let places := ((digits.take 9).reverse.dropWhile (· == '0')).reverse
      if digits.isEmpty then none
      else some (if places.isEmpty then [] else '.' :: places, after)
  | rest => some ([], rest)

def readSecond? : List Char → Option (List Char × List Char)
  | ':' :: rest =>
      match twoDigits? rest with
      | some (second, rest) =>
          if second ≤ 60 then
            (readFraction? rest).map fun (fraction, after) =>
              (':' :: padded 2 second ++ fraction, after)
          else none
      | none => none
  | rest => some ([], rest)

def readTime? (text : List Char) : Option (List Char × List Char) :=
  match twoDigits? text with
  | some (hour, ':' :: rest) =>
      match twoDigits? rest with
      | some (minute, rest) =>
          if hour < 24 && minute < 60 then
            (readSecond? rest).map fun (second, after) =>
              (padded 2 hour ++ ':' :: padded 2 minute ++ second, after)
          else none
      | none => none
  | _ => none

def offset? : List Char → Option (List Char)
  | [] => some []
  | ['Z'] => some ['Z']
  | ['z'] => some ['Z']
  | sign :: rest =>
      if sign ≠ '+' && sign ≠ '-' then none
      else
        match twoDigits? rest with
        | some (hour, ':' :: rest) =>
            match twoDigits? rest with
            | some (minute, []) =>
                if hour < 24 && minute < 60 then
                  let sign := if hour = 0 && minute = 0 then '+' else sign
                  some (sign :: padded 2 hour ++ ':' :: padded 2 minute)
                else none
            | _ => none
        | _ => none

def afterDate? : List Char → Option (List Char)
  | [] => some []
  | mark :: rest =>
      if mark = 'T' || mark = 't' || mark = ' ' then
        match readTime? rest with
        | some (time, rest) => (offset? rest).map fun zone => 'T' :: time ++ zone
        | none => none
      else none

def momentNode? (text : List Char) : Option Node :=
  match readDate? text with
  | some (date, rest) =>
      (afterDate? rest).map fun more => .scalar (String.ofList (date ++ more))
  | none =>
      match readTime? text with
      | some (time, []) => some (.scalar (String.ofList time))
      | _ => none

/-! ### Words -/

def endsWord (c : Char) : Bool :=
  isBlank c || c = '\n' || c = '\r' || c = ',' || c = ']' || c = '\x7d' || c = '#' || c = '='

/-- The word at the front of a text; a date and a time with a blank between them
are one word. -/
def takeWord (text : List Char) : List Char :=
  let word := text.takeWhile fun c => !endsWord c
  match readDate? word, text.drop word.length with
  | some (_, []), ' ' :: rest =>
      match twoDigits? rest with
      | some (_, ':' :: _) => word ++ ' ' :: rest.takeWhile fun c => !endsWord c
      | _ => word
  | _, _ => word

def wordNode? (word : List Char) : Option Node :=
  if word = "true".toList then some (.bool true)
  else if word = "false".toList then some (.bool false)
  else
    match numberNode? word with
    | some node => some node
    | none => momentNode? word

end Toml
end Settings
end RecordFilter
