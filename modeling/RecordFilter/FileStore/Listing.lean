/-
Stores from what is known of some paths.

A listing has files and directories and no links.  A path is walked name by name, from a
directory to what is in it or to the one above, and leads nowhere once it would go on behind
something that is no directory.
-/
import RecordFilter.FileStore
import RecordFilter.Text.Split

namespace RecordFilter
namespace FileStore

/-! ### Names on paths -/

def names (path : String) : List (List Char) := Text.split '/' path.toList

def pathOf (place : Place) : String := String.ofList (Text.join '/' place)

/-- The names on a path that lead on; a slash at the front counts as a name. -/
def steps (path : String) : List (List Char) :=
  let onward := (names path).filter fun name => name != [] && name != ['.']
  match path.toList with
  | '/' :: _ => ['/'] :: onward
  | _ => onward

def parent (path : String) : String :=
  match (steps path).dropLast with
  | [] => "."
  | onward => pathOf onward

/-- Whether a path can only lead to a directory. -/
def endsAsDirectory (path : String) : Bool :=
  match (names path).getLast? with
  | some last => last == [] || last == ['.'] || last == ['.', '.']
  | none => false

/-! ### Walks -/

def start (path : String) : Place :=
  match path.toList with
  | '/' :: _ => [['/']]
  | _ => []

def above (place : Place) : Place :=
  if place == [['/']] then place
  else if place.all (· == ['.', '.']) then ['.', '.'] :: place
  else place.dropLast

def next (place : Place) (name : List Char) : Place :=
  if name == [] || name == ['.'] then place
  else if name == ['.', '.'] then above place
  else place ++ [name]

def target (path : String) : Place := (names path).foldl next (start path)

structure Listing where
  files : List (Place × Content)
  directories : List Place

namespace Listing

/-- The root, the start of other paths and what is above it are directories without being
listed. -/
def isDirectory (listing : Listing) (place : Place) : Bool :=
  place == [['/']] || place.all (· == ['.', '.']) || listing.directories.contains place

def walk? (listing : Listing) (place : Place) : List (List Char) → Option Place
  | [] => some place
  | name :: names =>
      if listing.isDirectory place then listing.walk? (next place name) names else none

def place? (listing : Listing) (path : String) : Option Place :=
  if path = "" then none else listing.walk? (start path) (names path)

def holding (listing : Listing) (place : Place) : Holding :=
  if listing.isDirectory place then .directory
  else
    match listing.files.lookup place with
    | some content => .file content
    | none => .nothing

def store (listing : Listing) : FileStore where
  place? := listing.place?
  holding := listing.holding
  readable _ := true
  writable place := listing.isDirectory place.dropLast

end Listing

def fronts (place : Place) : List Place :=
  (List.range place.length).map fun count => place.take count

def ofFiles (files : List (String × String)) : FileStore :=
  Listing.store {
    files := files.map fun (path, text) => (target path, .ofText text)
    directories := files.flatMap fun (path, _) => fronts (target path)
  }

/-- The store in which every path has a place of its own, of which nothing is known but what
was seen there.  A run looks at files only before it writes, so that is enough for one. -/
def ofSeen (seen : List (String × Holding)) : FileStore where
  place? path := some [path.toList]
  holding place := (seen.lookup (pathOf place)).getD .nothing
  readable _ := true
  writable place :=
    !endsAsDirectory (pathOf place) && seen.lookup (parent (pathOf place)) == some .directory

end FileStore
end RecordFilter
