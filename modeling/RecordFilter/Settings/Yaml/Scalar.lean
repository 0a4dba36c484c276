/-
Scalars of an indented document.

Plain text denotes nothing, a truth value, an integer of 64 signed bits or a
floating number when it has the form of one, and itself otherwise; a tag decides
among these.  The infinite and undefined numbers have no node.  Text in quotes
or in a block stands for itself, with escapes only between double quotes.
-/
import RecordFilter.Settings.Node
import RecordFilter.Settings.Yaml.Line

namespace RecordFilter
namespace Settings
namespace Yaml

/-! ### Plain text and tags -/

/-- The integer that plain text denotes.  A base other than ten is announced in
front; a plus may stand before a literal with a sign of its own. -/
def plainInteger? (text : List Char) : Option Int :=
  let announced :=
    match text with
    | '0' :: 'x' :: rest => integerIn? 16 rest
    | '0' :: 'o' :: rest => integerIn? 8 rest
    | '+' :: rest => integerIn? 10 rest
    | _ => none
  match announced with
  | some n => some n
  | none => integerIn? 10 text

def unboundedWords : List String :=
  [".inf", ".Inf", ".INF", "+.inf", "+.Inf", "+.INF", "-.inf", "-.Inf", "-.INF", ".nan", ".NaN",
    ".NAN"]

/-- The node of a floating number, if the text denotes a number; the words for
numbers that are not finite denote one without node. -/
def plainFloat? (text : List Char) : Option (Option Node) :=
  if unboundedWords.contains (String.ofList text) then some none
  else if text.any Char.isDigit then (Decimal.readFloat? text).map fun x => some (.float x)
  else none

def isNothing (text : List Char) : Bool :=
  text.isEmpty || text == ['~'] || text == "null".toList

def plainTruth? (text : List Char) : Option Node :=
  if text = "true".toList then some (.bool true)
  else if text = "false".toList then some (.bool false)
  else none

def plainNode? (text : List Char) : Option Node :=
  if isNothing text then some .nothing
  else
    match plainTruth? text, plainInteger? text, plainFloat? text with
    | some node, _, _ => some node
    | none, some n, _ => some (.integer n)
    | none, none, some number => number
    | none, none, none => some (.scalar (String.ofList text))

/-- The node that plain text with a tag denotes.  Of a text that is not what the
tag says nothing is left; a tag that is not known makes it text. -/
def taggedNode? (tag text : List Char) : Option Node :=
  if tag = "!!bool".toList then some ((plainTruth? text).getD .nothing)
  else if tag = "!!int".toList then
    some (((integerIn? 10 text).map Node.integer).getD .nothing)
  else if tag = "!!float".toList then (plainFloat? text).getD (some .nothing)
  else if tag = "!!null".toList then some .nothing
  else some (.scalar (String.ofList text))

def scalarNode? (tag : Option (List Char)) (text : List Char) : Option Node :=
  match tag with
  | none => plainNode? text
  | some tag => taggedNode? tag text

/-! ### Text in quotes -/

inductive Quoted where
  | closed (text rest : List Char)
  | broken (text : List Char)
  | joined (text : List Char)
deriving DecidableEq, Repr, Inhabited

def Quoted.cons (c : Char) : Quoted → Quoted
  | .closed text rest => .closed (c :: text) rest
  | .broken text => .broken (c :: text)
  | .joined text => .joined (c :: text)

def Quoted.consBlank (c : Char) : Quoted → Quoted
  | .broken [] => .broken []
  | found => found.cons c

/-- A line between single quotes; a doubled quote stands for one. -/
def readSingle : List Char → Quoted
  | [] => .broken []
  | '\'' :: '\'' :: rest => (readSingle rest).cons '\''
  | '\'' :: rest => .closed [] rest
  | c :: rest =>
      if isBlank c then (readSingle rest).consBlank c else (readSingle rest).cons c

def escapeTable : List (Char × Char) :=
  [('0', '\x00'), ('a', '\x07'), ('b', '\x08'), ('t', '\t'), ('\t', '\t'), ('n', '\n'),
    ('v', '\x0b'), ('f', '\x0c'), ('r', '\r'), ('e', '\x1b'), (' ', ' '), ('"', '"'), ('/', '/'),
    ('\\', '\\'), ('N', '\u0085'), ('_', '\u00a0'), ('L', '\u2028'), ('P', '\u2029')]

def codeLength? : Char → Option Nat
  | 'x' => some 2
  | 'u' => some 4
  | 'U' => some 8
  | _ => none

/-- A line between double quotes, as it begins behind `skipped` characters of an
escape. -/
def readDouble? (skipped : Nat) : List Char → Option Quoted
  | [] => some (.broken [])
  | c :: rest =>
      match skipped with
      | skipped + 1 => readDouble? skipped rest
      | 0 =>
          if c = '"' then some (.closed [] rest)
          else if c = '\\' then
            match rest with
            | [] => some (.joined [])
            | letter :: digits =>
                match codeLength? letter with
                | some count =>
                    if digits.length < count then none
                    else
                      match codeChar? (digits.take count), readDouble? (count + 1) rest with
                      | some denoted, some found => some (found.cons denoted)
                      | _, _ => none
                | none =>
                    match escapeTable.lookup letter, readDouble? 1 rest with
                    | some denoted, some found => some (found.cons denoted)
                    | _, _ => none
          else if isBlank c then (readDouble? 0 rest).map (Quoted.consBlank c)
          else (readDouble? 0 rest).map (Quoted.cons c)

def readQuoted? (double : Bool) (text : List Char) : Option Quoted :=
  if double then readDouble? 0 text else some (readSingle text)

/-- The text between quotes that goes on over the next lines, and the lines from
behind the closing quote.  `joins` says that the last line break was taken away,
`empty` counts the empty lines since. -/
def moreQuoted? (double : Bool) (floor empty : Nat) (joins : Bool) :
    List Line → Option (List Char × List Line)
  | [] => none
  | line :: lines =>
      let start := line.dropBlanks
      let glue := if joins then List.replicate empty '\n' else folded empty
      match lines, start.text with
      | _ :: _, [] => moreQuoted? double floor (empty + 1) joins lines
      | _, _ =>
          if start.column + 1 < floor then none
          else
            match readQuoted? double start.text with
            | none => none
            | some (.closed text rest) =>
                let left := start.advance (start.text.length - rest.length)
                some (glue ++ text, left :: lines)
            | some (.broken text) =>
                (moreQuoted? double floor 0 false lines).map fun (more, left) =>
                  (glue ++ text ++ more, left)
            | some (.joined text) =>
                (moreQuoted? double floor 0 true lines).map fun (more, left) =>
                  (glue ++ text ++ more, left)

def quotedText? (double : Bool) (floor : Nat) : List Line → Option (List Char × List Line)
  | [] => none
  | line :: lines =>
      match readQuoted? double line.text with
      | none => none
      | some (.closed text rest) =>
          some (text, line.advance (line.text.length - rest.length) :: lines)
      | some (.broken text) =>
          (moreQuoted? double floor 0 false lines).map fun (more, left) => (text ++ more, left)
      | some (.joined text) =>
          (moreQuoted? double floor 0 true lines).map fun (more, left) => (text ++ more, left)

/-! ### Text in blocks -/

inductive Chomping where
  | clip
  | strip
  | keep
deriving DecidableEq, Repr, Inhabited

structure BlockHead where
  chomping : Chomping := .clip
  indentation : Option Nat := none
deriving DecidableEq, Repr, Inhabited

def takeChomping : List Char → Option Chomping × List Char
  | '+' :: rest => (some .keep, rest)
  | '-' :: rest => (some .strip, rest)
  | text => (none, text)

def takeIndentation : List Char → Option Nat × List Char
  | [] => (none, [])
  | c :: rest => if c.isDigit then (some (Decimal.digitValue c), rest) else (none, c :: rest)

/-- The head that characters denote, and what follows it on its line: at most one
digit and one sign in any order, where the digit is not zero. -/
def readHead? (text : List Char) : Option (BlockHead × List Char) :=
  let (first, afterFirst) := takeChomping text
  let (indentation, afterDigit) := takeIndentation afterFirst
  let (second, rest) :=
    match first with
    | some _ => (none, afterDigit)
    | none => takeChomping afterDigit
  if indentation = some 0 then none
  else some (⟨(first.or second).getD .clip, indentation⟩, rest)

def Line.behind (indentation : Nat) (line : Line) : List Char :=
  List.replicate (line.column - indentation) ' ' ++ line.text

/-- The indentation of the first line of a block that is not empty, or that of a
longer empty one before it. -/
def firstIndentation (least : Nat) : List Line → Nat
  | [] => least
  | line :: lines =>
      if line.text.isEmpty then firstIndentation (max least line.column) lines
      else max least line.column

/-- The lines of a block, and those behind it.  An empty line belongs to the
block; the last piece of the document is no line when it is empty. -/
def blockLines (indentation : Nat) : List Line → List (List Char) × List Line
  | [] => ([], [])
  | line :: lines =>
      if line.text.isEmpty && line.column ≤ indentation then
        if lines.isEmpty then ([], [])
        else
          let (block, rest) := blockLines indentation lines
          ([] :: block, rest)
      else if line.column < indentation then ([], line :: lines)
      else
        let (block, rest) := blockLines indentation lines
        (line.behind indentation :: block, rest)

/-- Text of a block whose lines are kept: `breaks` line breaks were met since the
last line that is not empty. -/
def keptLines (breaks : Nat) : List (List Char) → List Char × Nat
  | [] => ([], breaks)
  | line :: lines =>
      if line.isEmpty then keptLines (breaks + 1) lines
      else
        let (text, left) := keptLines 1 lines
        (List.replicate breaks '\n' ++ line ++ text, left)

def isIndented (line : List Char) : Bool :=
  match line with
  | [] => false
  | c :: _ => isBlank c

/-- Text of a block whose lines are folded: between two lines that are not
indented a single break counts as a space, and the first of several is dropped.
`flat` says that the last line was not indented. -/
def foldedLines (flat : Bool) (breaks : Nat) : List (List Char) → List Char × Nat
  | [] => ([], breaks)
  | line :: lines =>
      if line.isEmpty then foldedLines flat (breaks + 1) lines
      else
        let glue :=
          if flat && !isIndented line then folded (breaks - 1) else List.replicate breaks '\n'
        let (text, left) := foldedLines (!isIndented line) 1 lines
        (glue ++ line ++ text, left)

/-- The text of a block.  Without any line that is not empty, a block that ends
the document keeps a break if there is one. -/
def blockText (chomping : Chomping) (fold : Bool) (lines : List (List Char)) (atEnd : Bool) :
    List Char :=
  if lines.all List.isEmpty then
    match chomping with
    | .strip => []
    | .clip => if atEnd then ['\n'] else []
    | .keep => List.replicate (if atEnd then max 1 lines.length else lines.length) '\n'
  else
    let (text, breaks) := if fold then foldedLines false 0 lines else keptLines 0 lines
    match chomping with
    | .strip => text
    | .clip => text ++ ['\n']
    | .keep => text ++ List.replicate breaks '\n'

end Yaml
end Settings
end RecordFilter
