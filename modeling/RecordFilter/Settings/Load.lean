/-
Loading the settings.

There is one setting, the date format.  It comes from a settings file, if one is
named, and from the environment, whose variables count after the file.  A loader sees
files only by looking at them.

The format of a file is known by the extension of its name; a name that leads to no file
is tried with each extension behind it.  Which formats there are is left open; `dateFormat`
knows TOML, JSON and YAML.
-/
import RecordFilter.FileStore.Listing
import RecordFilter.Json.Reader
import RecordFilter.Settings.Key
import RecordFilter.Settings.Toml.Document
import RecordFilter.Settings.Yaml.Document

namespace RecordFilter
namespace Settings

abbrev Environment : Type := List (String × String)

inductive Fault where
  | missing
  | unknownExtension
  | malformed
  | noText
deriving DecidableEq, Repr, Inhabited

/-- A way from what is seen of files, the environment and the name of a settings file to a
date format. -/
abbrev Loader : Type := (String → FileEntry) → Environment → Option String → Except Fault String

/-! ### Files -/

structure Format where
  extension : String
  node? : List Char → Option Node
deriving Inhabited

def jsonNode? (text : List Char) : Option Node := (Json.Value.ofText? text).map Node.ofJson

def usualFormats : List Format :=
  [⟨"toml", Toml.ofText?⟩, ⟨"json", jsonNode?⟩, ⟨"yaml", Yaml.ofText?⟩, ⟨"yml", Yaml.ofText?⟩]

/-- The extension of the last name on a path: what follows its last point, unless
the point is in front of the name. -/
def extension? (path : String) : Option String :=
  match (FileStore.steps path).getLast? with
  | none => none
  | some name =>
      let extension := (name.reverse.takeWhile (· != '.')).reverse
      if extension.length + 1 < name.length then some (String.ofList extension) else none

def withExtension (path extension : String) : String :=
  String.ofList (path.toList.reverse.dropWhile (· == '/')).reverse ++ "." ++ extension

def candidates (formats : List Format) (path : String) : List String :=
  path :: formats.map fun format => withExtension path format.extension

def readFile (formats : List Format) (entry : String → FileEntry) (path : String) :
    Except Fault (Format × String) :=
  match entry path with
  | .file text =>
      match formats.find? fun format => extension? path == some format.extension with
      | some format => .ok (format, text)
      | none => .error .unknownExtension
  | .broken _ _ | .locked true => .error .malformed
  | _ =>
      if path = "" then .error .missing
      else
        let found := formats.findSome? fun format =>
          match entry (withExtension path format.extension) with
          | .file text => some (.ok (format, text))
          | .broken _ _ | .locked true => some (.error .malformed)
          | _ => none
        found.getD (.error .missing)

def dropMark : List Char → List Char
  | '\ufeff' :: text => text
  | text => text

def fileEntries (formats : List Format) (entry : String → FileEntry) (path : String) :
    Except Fault (List (String × Node)) :=
  match readFile formats entry path with
  | .error fault => .error fault
  | .ok (format, text) =>
      match format.node? (dropMark text.toList) with
      | some (.table entries) => .ok entries
      | _ => .error .malformed

/-! ### Environment -/

/-- The variables in a block of texts, each with a name, an equals sign and a value,
and a null character between neighbours. -/
def Environment.ofBlock (block : List Char) : Environment :=
  (Text.split '\x00' block).filterMap fun entry =>
    let name := entry.takeWhile (· != '=')
    match entry.drop name.length with
    | [] => none
    | _ :: value => some (String.ofList name, String.ofList value)

def variableMark : List Char := "filterspec_".toList

/-- The entries of the environment.  The case of a variable does not matter. -/
def environmentEntries : Environment → List (String × Node)
  | [] => []
  | (name, value) :: more =>
      let lowered := name.toList.map Char.toLower
      if variableMark.isPrefixOf lowered then
        (String.ofList (lowered.drop variableMark.length), .scalar value) ::
          environmentEntries more
      else environmentEntries more

/-! ### The date format -/

def defaultDateFormat : String := "[year]-[month]-[day] [hour]:[minute]:[second]"

def dateFormatName : List Char := "date_format".toList

/-- The node of the setting after one more entry: a later entry takes the place of
an earlier one, and an entry for something inside makes it a table. -/
def overlay (held : Option Node) (entry : String × Node) : Option Node :=
  match Reach.of entry.1.toList with
  | .entry word => if word = dateFormatName then some entry.2 else held
  | .inside word => if word = dateFormatName then some (.table []) else held

def dateFormatOf (entries : List (String × Node)) : Except Fault String :=
  match entries.foldl overlay none with
  | none => .ok defaultDateFormat
  | some (.scalar text) => .ok text
  | some _ => .error .noText

def dateFormatIn (formats : List Format) : Loader := fun entry environment path =>
  match path with
  | none => dateFormatOf (environmentEntries environment)
  | some path =>
      match fileEntries formats entry path with
      | .error fault => .error fault
      | .ok entries => dateFormatOf (entries ++ environmentEntries environment)

def dateFormat : Loader := dateFormatIn usualFormats

end Settings
end RecordFilter
