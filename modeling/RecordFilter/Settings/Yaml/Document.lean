/-
Indented documents.

A node stands at a column: a list has one dash per item, a table one key and
colon per entry, each at the same column.  What belongs to an item or entry
stands behind it or on later lines that begin at a greater column; the items of
a list may also begin at the column of the key that the list belongs to.  In
brackets neither lines nor columns count.  Each step of the reading takes
something away from the lines, or goes one level deeper for something that
stands there, so a bound on the number of steps is known beforehand.
-/
import RecordFilter.Settings.Yaml.Scalar

namespace RecordFilter
namespace Settings
namespace Yaml

/-- The lines that are left, and the nodes that were given a name. -/
structure Source where
  lines : List Line
  anchors : List (List Char × Node) := []
deriving Inhabited

abbrev Reader (α : Type) := StateT Source Option α

/-! ### Lines -/

def setLines (lines : List Line) : Reader Unit :=
  modify fun source => { source with lines }

def firstLine : Reader Line := do
  match (← get).lines with
  | [] => failure
  | line :: _ => pure line

def setFirstLine (line : Line) : Reader Unit :=
  modify fun source => { source with lines := line :: source.lines.tail }

def skip (count : Nat) : Reader Unit := do
  setFirstLine ((← firstLine).advance count).dropBlanks

/-- Goes on with the next line; on the first one nothing may be left. -/
def endLine : Reader Unit := do
  let line ← firstLine
  if line.isSpent then modify fun source => { source with lines := source.lines.tail }
  else failure

def nextLine? : Reader (Option Line) := do
  let lines := dropBare (← get).lines
  setLines lines
  pure lines.head?

/-- Goes on with the next character in brackets, which is not a blank and in no
comment. -/
def nextChar : Reader Char := do
  let lines := dropBare (← get).lines
  match lines with
  | [] => failure
  | line :: rest =>
      let start := line.dropBlanks
      setLines (start :: rest)
      match start.text with
      | [] => failure
      | c :: _ => pure c

/-! ### Properties and scalars -/

def takeName (text : List Char) : List Char :=
  text.takeWhile fun c => !(isBlank c || isFlowIndicator c)

structure Properties where
  tag : Option (List Char) := none
  anchor : Option (List Char) := none
deriving DecidableEq, Repr, Inhabited

def addProperty? (properties : Properties) (text : List Char) : Option (Properties × Nat) :=
  let name := takeName text
  match text with
  | '!' :: _ =>
      if properties.tag.isNone then some ({ properties with tag := some name }, name.length)
      else none
  | '&' :: _ =>
      if properties.anchor.isNone && 1 < name.length then
        some ({ properties with anchor := some name.tail }, name.length)
      else none
  | _ => none

def takeProperties (line : Line) : Properties × Line :=
  match addProperty? {} line.text with
  | none => ({}, line)
  | some (one, count) =>
      let rest := (line.advance count).dropBlanks
      match addProperty? one rest.text with
      | none => (one, rest)
      | some (two, count) => (two, (rest.advance count).dropBlanks)

def nameNode (properties : Properties) (node : Node) : Reader Node := do
  match properties.anchor with
  | none => pure node
  | some name =>
      modify fun source => { source with anchors := (name, node) :: source.anchors }
      pure node

def orFail {α : Type} : Option α → Reader α
  | some a => pure a
  | none => failure

def aliased : Reader Node := do
  let line ← firstLine
  let name := takeName line.text
  setFirstLine (line.advance name.length)
  orFail ((← get).anchors.lookup name.tail)

def quoted (double : Bool) (floor : Nat) : Reader Node := do
  setFirstLine ((← firstLine).advance 1)
  let (text, lines) ← orFail (quotedText? double floor (← get).lines)
  setLines lines
  pure (.scalar (String.ofList text))

def plain (flow : Bool) (floor : Nat) (tag : Option (List Char)) : Reader Node := do
  let (text, lines) := plainText flow floor (← get).lines
  setLines lines
  orFail (scalarNode? tag text)

def block (fold : Bool) (floor : Nat) : Reader Node := do
  let line ← firstLine
  let (head, rest) ← orFail (readHead? line.text.tail)
  setFirstLine (line.advance (line.text.length - rest.length))
  endLine
  let lines := (← get).lines
  let indentation :=
    match head.indentation with
    | some size => floor - 1 + size
    | none => firstIndentation floor lines
  let (block, left) := blockLines indentation lines
  setLines left
  let atEnd := left.isEmpty && !lines.isEmpty
  pure (.scalar (String.ofList (blockText head.chomping fold block atEnd)))

/-! ### Keys -/

def keyText : Node → Reader String
  | .scalar text => pure text
  | _ => failure

/-- Whether the text at the front of a line is the key of an entry: plain or
quoted text that ends on this line in front of a colon. -/
def holdsKey (line : Line) : Bool :=
  let start := (takeProperties line).2
  let behind : List Char :=
    match start.text with
    | [] => []
    | '"' :: rest =>
        match readQuoted? true rest with
        | some (.closed _ after) => after
        | _ => []
    | '\'' :: rest =>
        match readQuoted? false rest with
        | some (.closed _ after) => after
        | _ => []
    | '*' :: _ => start.text.drop (takeName start.text).length
    | c :: rest => if startsPlain false c rest then (takePlain false start.text).2 else []
  (Line.mk 0 behind).dropBlanks.begins ':'

def readKey : Reader String := do
  let (properties, start) := takeProperties (← firstLine)
  setFirstLine start
  let node ←
    match start.text.head? with
    | some '"' => quoted true 0
    | some '\'' => quoted false 0
    | some '*' => aliased
    | _ => do
        let (text, after) := takePlain false start.text
        setFirstLine (start.advance (start.text.length - after.length))
        orFail (scalarNode? properties.tag text)
  let node ← nameNode properties node
  skip 0
  setFirstLine ((← firstLine).advance 1)
  keyText node

def addEntry (entries : List (String × Node)) (key : String) (node : Node) :
    Reader (List (String × Node)) :=
  if (Node.lookup? key entries).isSome then failure else pure (entries ++ [(key, node)])

/-! ### Nodes in brackets -/

mutual

def flowNode (floor : Nat) : Nat → Reader Node
  | 0 => failure
  | steps + 1 => do
      let _ ← nextChar
      let (properties, start) := takeProperties (← firstLine)
      setFirstLine start
      let c ← nextChar
      let node ←
        match c with
        | '[' => do
            skip 1
            pure (Node.list (← flowItems floor steps []))
        | '\x7b' => do
            skip 1
            pure (Node.table (← flowEntries floor steps []))
        | '"' => quoted true floor
        | '\'' => quoted false floor
        | '*' => aliased
        | _ => do
            let line ← firstLine
            if isFlowIndicator c || (c = ':' && endsKey true line.text.tail) then
              orFail (scalarNode? properties.tag [])
            else if startsPlain true c line.text.tail && floor ≤ line.column then
              plain true floor properties.tag
            else failure
      nameNode properties node

/-- The items of a list in brackets, up to behind its closing bracket.  A single
entry stands for a table that holds it. -/
def flowItems (floor : Nat) : Nat → List Node → Reader (List Node)
  | 0, _ => failure
  | steps + 1, items => do
      let c ← nextChar
      if c = ']' then
        setFirstLine ((← firstLine).advance 1)
        pure items
      else if c = ',' then failure
      else
        let item ← flowItem floor steps
        let next ← nextChar
        if next = ',' then
          skip 1
          flowItems floor steps (items ++ [item])
        else if next = ']' then flowItems floor steps (items ++ [item])
        else failure

def flowItem (floor : Nat) : Nat → Reader Node
  | 0 => failure
  | steps + 1 => do
      let explicit := (← firstLine).begins '?'
      if explicit then skip 1
      let node ← flowNode floor steps
      if (← nextChar) = ':' then
        skip 1
        let key ← keyText node
        pure (.table [(key, ← flowNode floor steps)])
      else if explicit then
        pure (.table [(← keyText node, .nothing)])
      else pure node

def flowEntries (floor : Nat) : Nat → List (String × Node) → Reader (List (String × Node))
  | 0, _ => failure
  | steps + 1, entries => do
      let c ← nextChar
      if c = '\x7d' then
        setFirstLine ((← firstLine).advance 1)
        pure entries
      else if c = ',' then failure
      else
        if (← firstLine).begins '?' then skip 1
        let key ← keyText (← flowNode floor steps)
        let value ←
          if (← nextChar) = ':' then do
            skip 1
            flowNode floor steps
          else pure .nothing
        let entries ← addEntry entries key value
        let next ← nextChar
        if next = ',' then
          skip 1
          flowEntries floor steps entries
        else if next = '\x7d' then flowEntries floor steps entries
        else failure

end

/-! ### Nodes at columns -/

mutual

/-- The node that begins on the first line.  Collections begin only where the
line does, or behind a dash; `floor` is the least column of what belongs to it. -/
def node (floor : Nat) (fresh : Bool) : Nat → Reader Node
  | 0 => failure
  | steps + 1 => do
      let line ← firstLine
      if fresh && line.begins '-' then
        pure (.list (← items line.column steps []))
      else if fresh && (line.begins '?' || holdsKey line) then
        pure (.table (← entries line.column steps []))
      else
        let (properties, start) := takeProperties line
        setFirstLine start
        let found ←
          match start.text with
          | [] => behind floor none properties.tag steps
          | '#' :: _ => behind floor none properties.tag steps
          | '"' :: _ => do
              let text ← quoted true floor
              endLine
              pure text
          | '\'' :: _ => do
              let text ← quoted false floor
              endLine
              pure text
          | '|' :: _ => block false floor
          | '>' :: _ => block true floor
          | '*' :: _ => do
              let named ← aliased
              endLine
              pure named
          | c :: rest =>
              if c = '[' || c = '\x7b' then do
                let collection ← flowNode floor steps
                endLine
                pure collection
              else if startsPlain false c rest then do
                let text ← plain false floor properties.tag
                endLine
                pure text
              else failure
        nameNode properties found
termination_by structural steps => steps

/-- The node behind a dash, a colon or properties: on the rest of the line, or on
later lines.  A list may begin at the column `listColumn`. -/
def behind (floor : Nat) (listColumn : Option Nat) (tag : Option (List Char)) :
    Nat → Reader Node
  | 0 => failure
  | steps + 1 => do
      let line ← firstLine
      if line.isBare then
        setLines (← get).lines.tail
        match ← nextLine? with
        | none => orFail (scalarNode? tag [])
        | some next =>
            if floor ≤ next.column || (next.begins '-' && listColumn == some next.column) then
              node floor true steps
            else orFail (scalarNode? tag [])
      else node floor false steps
termination_by structural steps => steps

def items (column : Nat) : Nat → List Node → Reader (List Node)
  | 0, _ => failure
  | steps + 1, before => do
      match ← nextLine? with
      | none => pure before
      | some line =>
          if line.column < column then pure before
          else if line.column = column && line.begins '-' then
            skip 1
            let item ←
              if (← firstLine).isBare then behind (column + 1) none none steps
              else node (column + 1) true steps
            items column steps (before ++ [item])
          else if line.column = column then pure before
          else failure
termination_by structural steps => steps

def entries (column : Nat) : Nat → List (String × Node) → Reader (List (String × Node))
  | 0, _ => failure
  | steps + 1, before => do
      match ← nextLine? with
      | none => pure before
      | some line =>
          if line.column < column then pure before
          else if line.column = column && line.begins '?' then
            skip 1
            let held ←
              if (← firstLine).isBare then behind (column + 1) none none steps
              else node (column + 1) true steps
            let key ← keyText held
            let value ←
              match ← nextLine? with
              | none => pure .nothing
              | some next =>
                  if next.column = column && next.begins ':' then do
                    skip 1
                    behind (column + 1) none none steps
                  else pure .nothing
            entries column steps (← addEntry before key value)
          else if line.column = column && holdsKey line then
            let key ← readKey
            skip 0
            let value ← behind (column + 1) (some column) none steps
            entries column steps (← addEntry before key value)
          else failure
termination_by structural steps => steps

end

/-! ### Documents -/

structure Section where
  marked : Option Line
  lines : List Line
deriving Inhabited

def behindMarker? (marker : Char) (line : Line) : Option Line :=
  match line.column, line.text with
  | 0, a :: b :: c :: rest =>
      if a = marker && b = marker && c = marker && (rest.isEmpty || rest.head?.any isBlank) then
        some ⟨3, rest⟩
      else none
  | _, _ => none

def untilMarker : List Line → List Line × List Line
  | [] => ([], [])
  | line :: lines =>
      if (behindMarker? '-' line).isSome || (behindMarker? '.' line).isSome then
        ([⟨0, []⟩], line :: lines)
      else
        let (before, rest) := untilMarker lines
        (line :: before, rest)

theorem untilMarker_length (lines : List Line) :
    (untilMarker lines).2.length ≤ lines.length := by
  induction lines with
  | nil => simp [untilMarker]
  | cons line lines ih =>
      unfold untilMarker
      split
      · simp
      · simp only [List.length_cons]
        omega

/-- The documents of a text.  Three dashes begin a document and three points end
one; directives stand in front of the dashes.  `opened` says that a document may
begin without dashes, `directed` that directives ask for them. -/
def documents? (opened directed : Bool) : List Line → Option (List Section)
  | [] => if directed then none else some []
  | line :: lines =>
      match behindMarker? '-' line with
      | some rest =>
          (documents? false false (untilMarker lines).2).map
            (⟨some rest, (untilMarker lines).1⟩ :: ·)
      | none =>
          if (behindMarker? '.' line).isSome then
            if directed then none else documents? true false lines
          else if line.isBare then documents? opened directed lines
          else if opened && line.column = 0 && line.text.head? == some '%' then
            documents? opened true lines
          else if opened && !directed then
            (documents? false false (untilMarker lines).2).map
              (⟨none, line :: (untilMarker lines).1⟩ :: ·)
          else none
termination_by lines => lines.length
decreasing_by
  all_goals
    have hLength := untilMarker_length lines
    simp only [List.length_cons]
    omega

def documentNode (steps : Nat) (part : Section) : Reader Node := do
  let found ←
    match part.marked with
    | none => do
        setLines (⟨0, []⟩ :: part.lines)
        behind 0 none none steps
    | some rest => do
        setLines (rest.dropBlanks :: part.lines)
        behind 0 none none steps
  match ← nextLine? with
  | none => pure found
  | some _ => failure

/-- The node that a text denotes: an empty table when it holds no document, and
none when it holds several. -/
def ofText? (text : List Char) : Option Node :=
  let lines := (breakLines text).map Line.ofChars
  match documents? true false lines with
  | some [] => some (.table [])
  | some [part] => (documentNode (4 * text.length + 16) part ⟨[], []⟩).map Prod.fst
  | _ => none

end Yaml
end Settings
end RecordFilter
