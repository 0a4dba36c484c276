/-
Settings as statements.

A document is a sequence of lines: a header in brackets opens a table, a header
in doubled brackets opens the next table of a list, and a key with a value adds
to the table that is open.  Lists and tables may also stand in brackets as
values, over several lines.  Each step of the reading takes at least one
character, so the number of characters bounds the number of steps.
-/
import RecordFilter.Settings.Toml.Scalar
import RecordFilter.Settings.Toml.Table

namespace RecordFilter
namespace Settings
namespace Toml

/-! ### Between the parts -/

def dropBlanks (text : List Char) : List Char := text.dropWhile isBlank

/-- Drops blanks, line breaks and comments; `comment` says that a comment has
begun. -/
def dropSpace (comment : Bool) : List Char → List Char
  | [] => []
  | c :: rest =>
      if c = '\n' || (c = '\r' && rest.head? == some '\n') then dropSpace false rest
      else if comment then
        if isPrintable c then dropSpace true rest else c :: rest
      else if isBlank c then dropSpace false rest
      else if c = '#' then dropSpace true rest
      else c :: rest

def endLine? (text : List Char) : Option (List Char) :=
  let rest :=
    match dropBlanks text with
    | '#' :: comment => comment.dropWhile isPrintable
    | other => other
  if rest.isEmpty then some [] else afterBreak? rest

/-! ### Keys -/

def isKeyChar (c : Char) : Bool := c.isAlphanum || c = '_' || c = '-'

def readPart? (text : List Char) : Option (String × List Char) :=
  match text with
  | '"' :: rest => (readLine? '"' 0 rest).map fun (part, after) => (String.ofList part, after)
  | '\'' :: rest => (readLine? '\'' 0 rest).map fun (part, after) => (String.ofList part, after)
  | _ =>
      let part := text.takeWhile isKeyChar
      if part.isEmpty then none else some (String.ofList part, text.drop part.length)

def readKey? : Nat → List Char → Option (String × List String × List Char)
  | 0, _ => none
  | steps + 1, text =>
      match readPart? (dropBlanks text) with
      | none => none
      | some (part, rest) =>
          match dropBlanks rest with
          | '.' :: more =>
              (readKey? steps more).map fun (next, parts, after) => (part, next :: parts, after)
          | after => some (part, [], after)

/-! ### Values -/

mutual

def readValue? : Nat → List Char → Option (Node × List Char)
  | 0, _ => none
  | steps + 1, text =>
      match text with
      | [] => none
      | '[' :: rest =>
          (readItems? steps (dropSpace false rest)).map fun (items, after) => (.list items, after)
      | '\x7b' :: rest =>
          (readPairs? steps [] (dropSpace false rest)).map fun (entries, after) =>
            (.table (Entries.nodes entries), after)
      | c :: _ =>
          if c = '"' || c = '\'' then
            (readString? text).map fun (chars, after) => (.scalar (String.ofList chars), after)
          else
            let word := takeWord text
            (wordNode? word).map fun node => (node, text.drop word.length)

def readItems? : Nat → List Char → Option (List Node × List Char)
  | 0, _ => none
  | _ + 1, ']' :: rest => some ([], rest)
  | steps + 1, text =>
      match readValue? steps text with
      | none => none
      | some (item, rest) =>
          match dropSpace false rest with
          | ',' :: more =>
              (readItems? steps (dropSpace false more)).map fun (items, after) =>
                (item :: items, after)
          | ']' :: after => some ([item], after)
          | _ => none

def readPairs? : Nat → Entries → List Char → Option (Entries × List Char)
  | 0, _, _ => none
  | _ + 1, entries, '\x7d' :: rest => some (entries, rest)
  | steps + 1, entries, text =>
      match readKey? text.length text with
      | some (key, path, '=' :: rest) =>
          match readValue? steps (dropBlanks rest) with
          | none => none
          | some (node, rest) =>
              match Entries.insert? key node path entries, dropSpace false rest with
              | some entries, ',' :: more => readPairs? steps entries (dropSpace false more)
              | some entries, '\x7d' :: after => some (entries, after)
              | _, _ => none
      | _ => none

end

/-! ### Statements -/

def splitLast (key : String) : List String → List String × String
  | [] => ([], key)
  | next :: path =>
      let (before, last) := splitLast next path
      (key :: before, last)

inductive Statement where
  | header (before : List String) (last : String)
  | listHeader (before : List String) (last : String)
  | entry (key : String) (path : List String) (node : Node)
deriving Inhabited

def readStatement? (text : List Char) : Option (Statement × List Char) :=
  match text with
  | '[' :: '[' :: rest =>
      match readKey? rest.length rest with
      | some (key, path, ']' :: ']' :: after) =>
          let (before, last) := splitLast key path
          (endLine? after).map fun next => (.listHeader before last, next)
      | _ => none
  | '[' :: rest =>
      match readKey? rest.length rest with
      | some (key, path, ']' :: after) =>
          let (before, last) := splitLast key path
          (endLine? after).map fun next => (.header before last, next)
      | _ => none
  | _ =>
      match readKey? text.length text with
      | some (key, path, '=' :: rest) =>
          match readValue? (rest.length + 1) (dropBlanks rest) with
          | some (node, after) => (endLine? after).map fun next => (.entry key path node, next)
          | none => none
      | _ => none

def Statement.apply? (root : Entries) (here : List String) :
    Statement → Option (Entries × List String)
  | .header before last =>
      (root.descend? (Entries.openTable? last) before).map fun root => (root, before ++ [last])
  | .listHeader before last =>
      (root.descend? (Entries.openListed? last) before).map fun root => (root, before ++ [last])
  | .entry key path node =>
      (root.descend? (Entries.insert? key node path) here).map fun root => (root, here)

def readStatements? (root : Entries) (here : List String) : Nat → List Char → Option Entries
  | 0, _ => none
  | steps + 1, text =>
      match dropSpace false text with
      | [] => some root
      | c :: rest =>
          match readStatement? (c :: rest) with
          | none => none
          | some (statement, after) =>
              match statement.apply? root here with
              | none => none
              | some (root, here) => readStatements? root here steps after

def ofText? (text : List Char) : Option Node :=
  (readStatements? [] [] (text.length + 1) text).map fun root => .table (Entries.nodes root)

end Toml
end Settings
end RecordFilter
