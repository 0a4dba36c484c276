/-
Lines of an indented document.

A line is known by the column of its first character that is no space, and by
the characters from there on; what is left of a line after some of it was read
is again a line.  Lines end at a line feed, a carriage return, or both.  A text
without indicators, called plain, may go on over several lines, which are folded
into one: a single line break counts as a space, and of several breaks all but
the first are kept.
-/
import RecordFilter.Settings.Literal

namespace RecordFilter
namespace Settings
namespace Yaml

/-- A line, or what is left of one: the column of its first character and its
characters. -/
structure Line where
  column : Nat
  text : List Char
deriving DecidableEq, Repr, Inhabited

/-! ### Lines -/

def extendFirst (c : Char) : List (List Char) → List (List Char)
  | [] => [[c]]
  | line :: lines => (c :: line) :: lines

/-- The texts between the line breaks; the last one ends with the document. -/
def breakLines : List Char → List (List Char)
  | [] => [[]]
  | '\r' :: '\n' :: rest => [] :: breakLines rest
  | c :: rest =>
      if c = '\n' || c = '\r' then [] :: breakLines rest
      else extendFirst c (breakLines rest)

/-- The line with given characters; spaces at the front count for the column. -/
def Line.ofChars (chars : List Char) : Line :=
  ⟨(chars.takeWhile (· == ' ')).length, chars.dropWhile (· == ' ')⟩

def Line.advance (count : Nat) (line : Line) : Line :=
  ⟨line.column + count, line.text.drop count⟩

def Line.dropBlanks (line : Line) : Line :=
  line.advance (line.text.takeWhile isBlank).length

def Line.isBare (line : Line) : Bool :=
  match line.dropBlanks.text with
  | [] => true
  | c :: _ => c == '#'

/-- What is left of a line holds nothing: a comment there has to follow a blank. -/
def Line.isSpent (line : Line) : Bool :=
  match line.text with
  | [] => true
  | c :: _ => isBlank c && line.isBare

def Line.begins (line : Line) (indicator : Char) : Bool :=
  match line.text with
  | [] => false
  | [c] => c == indicator
  | c :: next :: _ => c == indicator && isBlank next

def dropBare : List Line → List Line
  | [] => []
  | line :: lines => if line.isBare then dropBare lines else line :: lines

/-! ### Plain text -/

def isFlowIndicator (c : Char) : Bool :=
  c = ',' || c = '[' || c = ']' || c = '\x7b' || c = '\x7d'

def endsKey (flow : Bool) : List Char → Bool
  | [] => true
  | c :: _ => isBlank c || (flow && isFlowIndicator c)

/-- The plain text at the front of a line, without blanks at its end, and what
follows it.  Inside brackets it also ends at their indicators. -/
def takePlain (flow : Bool) : List Char → List Char × List Char
  | [] => ([], [])
  | c :: rest =>
      if c = ':' && endsKey flow rest then ([], c :: rest)
      else if flow && isFlowIndicator c then ([], c :: rest)
      else if isBlank c then
        match rest with
        | '#' :: _ => ([], c :: rest)
        | _ =>
            match takePlain flow rest with
            | ([], _) => ([], c :: rest)
            | (more, after) => (c :: more, after)
      else
        let (more, after) := takePlain flow rest
        (c :: more, after)

def startsPlain (flow : Bool) (c : Char) (rest : List Char) : Bool :=
  if c = '-' || c = '?' || c = ':' then !endsKey flow rest
  else !(isBlank c || isFlowIndicator c || "#&*!|>'\"%@\x60".toList.contains c)

def folded (empty : Nat) : List Char :=
  if empty = 0 then [' '] else List.replicate empty '\n'

/-- The plain text that goes on over the next lines, and the lines from where it
ends.  Outside brackets such lines begin at the column `floor` or behind it. -/
def morePlain (flow : Bool) (floor empty : Nat) : List Line → List Char × List Line
  | [] => ([], [])
  | line :: lines =>
      let start := line.dropBlanks
      if start.text.isEmpty then morePlain flow floor (empty + 1) lines
      else if (!flow && start.column < floor) || start.text.head? == some '#' then ([], line :: lines)
      else
        let (piece, after) := takePlain flow start.text
        let left := start.advance (start.text.length - after.length)
        if piece.isEmpty then ([], line :: lines)
        else if (after.dropWhile isBlank).isEmpty then
          match morePlain flow floor 0 lines with
          | ([], _) => (folded empty ++ piece, left :: lines)
          | (more, rest) => (folded empty ++ piece ++ more, rest)
        else (folded empty ++ piece, left :: lines)

def plainText (flow : Bool) (floor : Nat) : List Line → List Char × List Line
  | [] => ([], [])
  | line :: lines =>
      let (piece, after) := takePlain flow line.text
      let left := line.advance (line.text.length - after.length)
      if (after.dropWhile isBlank).isEmpty then
        match morePlain flow floor 0 lines with
        | ([], _) => (piece, left :: lines)
        | (more, rest) => (piece ++ more, rest)
      else (piece, left :: lines)

end Yaml
end Settings
end RecordFilter
