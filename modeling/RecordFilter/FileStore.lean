/-
Files by their places.

A path leads to a place with all its links followed, so a file has one place, however many
paths lead to it.  Where paths lead is part of the store and can be anything.  A run puts
files at places and makes no directories and no links, so paths lead where they led.
-/
import RecordFilter.Text.Content

namespace RecordFilter

abbrev Place : Type := List (List Char)

inductive Holding where
  | file (content : Content)
  | directory
  | nothing
deriving DecidableEq, Repr, Inhabited

/-- What is seen of a path without a change to any file. -/
inductive FileEntry where
  | file (text : String)
  | broken (front : String) (rest : List UInt8)
  | directory
  | locked (isFile : Bool)
  | missing
deriving DecidableEq, Repr, Inhabited

def FileEntry.opens : FileEntry → Bool
  | .file _ | .broken _ _ | .directory => true
  | .locked _ | .missing => false

def Holding.shown : Holding → FileEntry
  | .file content =>
      if content.isWhole then .file content.text else .broken content.text content.rest
  | .directory => .directory
  | .nothing => .missing

structure FileStore where
  /-- The place that a path leads to.  A path through something that is no directory, say,
  leads to none. -/
  place? : String → Option Place
  holding : Place → Holding
  readable : Place → Bool
  writable : Place → Bool
deriving Inhabited

namespace FileStore

/-! ### Reading -/

def heldAt (store : FileStore) (path : String) : Holding :=
  match store.place? path with
  | none => .nothing
  | some place => store.holding place

def entry (store : FileStore) (path : String) : FileEntry :=
  match store.place? path with
  | none => .missing
  | some place =>
      if store.readable place || store.holding place == .nothing then
        (store.holding place).shown
      else .locked (store.holding place != .directory)

/-! ### Writing -/

def canWrite (store : FileStore) (path : String) : Bool :=
  match store.place? path with
  | none => false
  | some place => store.writable place && store.holding place != .directory

def put (store : FileStore) (place : Place) (content : Content) : FileStore :=
  { store with
    holding := fun other => if other = place then .file content else store.holding other }

def write (store : FileStore) (path text : String) : FileStore :=
  match store.place? path with
  | none => store
  | some place => store.put place (.ofText text)

def append (store : FileStore) (path text : String) : FileStore :=
  match store.place? path with
  | none => store
  | some place =>
      match store.holding place with
      | .file held => store.put place (held.append text)
      | .directory | .nothing => store

theorem holding_put_self (store : FileStore) (place : Place) (content : Content) :
    (store.put place content).holding place = .file content := if_pos rfl

theorem holding_put_of_ne (store : FileStore) {place other : Place} (content : Content)
    (hOther : other ≠ place) : (store.put place content).holding other = store.holding other :=
  if_neg hOther

theorem put_put (store : FileStore) (place : Place) (first second : Content) :
    (store.put place first).put place second = store.put place second := by
  have hHolding : ((store.put place first).put place second).holding =
      (store.put place second).holding := by
    funext other
    by_cases hPlace : other = place
    · simp only [put, if_pos hPlace]
    · simp only [put, if_neg hPlace]
  exact congrArg (fun holding => { store with holding }) hHolding

theorem exists_place_of_canWrite {store : FileStore} {path : String}
    (hWrite : store.canWrite path = true) : ∃ place, store.place? path = some place := by
  unfold canWrite at hWrite
  split at hWrite
  · cases hWrite
  · rename_i place hPlace
    exact ⟨place, hPlace⟩

section Place

variable {store : FileStore} {path : String} {place : Place}
  (hPlace : store.place? path = some place)

include hPlace

theorem write_eq_put (text : String) : store.write path text = store.put place (.ofText text) := by
  rw [write, hPlace]

/-- What is added to a file that was written before is written behind it. -/
theorem append_write (text more : String) :
    (store.write path text).append path more = store.write path (text ++ more) := by
  have hSame : (store.put place (.ofText text)).place? path = some place := hPlace
  rw [write_eq_put hPlace, write_eq_put hPlace, append, hSame]
  simp only [holding_put_self, Content.append_ofText, put_put]

end Place

end FileStore
end RecordFilter
