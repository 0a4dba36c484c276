/-
Tables that are put together statement by statement.

A header opens the table at a path, a key with dots opens the tables on its way,
and a doubled header adds one more table to a list of tables.  A table records
how it was opened, which decides whether a later statement may add to it; a value
is closed.  Every operation follows its path, and fails where a key is taken.
-/
import RecordFilter.Settings.Node

namespace RecordFilter
namespace Settings
namespace Toml

inductive Opening where
  | implied
  | dotted
  | stated
deriving DecidableEq, Repr, Inhabited

inductive Item where
  | value (node : Node)
  | table (opening : Opening) (entries : List (String × Item))
  | tables (closed : List (List (String × Item))) (last : List (String × Item))
deriving Inhabited

abbrev Entries : Type := List (String × Item)

namespace Entries

/-- Replaces what stands under a key, or puts it behind the other entries; there
is nothing to add when the change fails. -/
def alter? (key : String) (change : Option Item → Option Item) : Entries → Option Entries
  | [] => (change none).map fun item => [(key, item)]
  | (other, item) :: entries =>
      if other = key then (change (some item)).map fun item => (other, item) :: entries
      else (alter? key change entries).map fun entries => (other, item) :: entries

def insert? (key : String) (node : Node) : List String → Entries → Option Entries
  | [] =>
      alter? key fun
        | none => some (.value node)
        | some _ => none
  | next :: path =>
      alter? key fun
        | none => (insert? next node path []).map (.table .dotted ·)
        | some (.table .stated _) => none
        | some (.table opening entries) => (insert? next node path entries).map (.table opening ·)
        | some _ => none

def descend? (change : Entries → Option Entries) : List String → Entries → Option Entries
  | [] => change
  | key :: path =>
      alter? key fun
        | none => (descend? change path []).map (.table .implied ·)
        | some (.table opening entries) => (descend? change path entries).map (.table opening ·)
        | some (.tables closed last) => (descend? change path last).map (.tables closed ·)
        | some (.value _) => none

def openTable? (key : String) : Entries → Option Entries :=
  alter? key fun
    | none => some (.table .stated [])
    | some (.table .implied entries) => some (.table .stated entries)
    | some _ => none

def openListed? (key : String) : Entries → Option Entries :=
  alter? key fun
    | none => some (.tables [] [])
    | some (.tables closed last) => some (.tables (closed ++ [last]) [])
    | some _ => none

mutual

def node : Item → Node
  | .value node => node
  | .table _ entries => .table (nodes entries)
  | .tables closed last => .list (listed closed ++ [.table (nodes last)])

def nodes : List (String × Item) → List (String × Node)
  | [] => []
  | (key, item) :: entries => (key, node item) :: nodes entries

def listed : List (List (String × Item)) → List Node
  | [] => []
  | entries :: more => .table (nodes entries) :: listed more

end

end Entries
end Toml
end Settings
end RecordFilter
