/-
The program.

A command line is read, the files that its command may read are looked at, and
the run is computed; then what the run leaves is written and printed.  Nothing
is decided here.
-/
import RecordFilter.Command.Run

namespace RecordFilter
namespace Program

open Command (Invocation Outcome Workspace)

/-! ### Finding -/

def readHandle (handle : IO.FS.Handle) : IO Holding := do
  try
    pure (.file (.ofBytes (← handle.readBinToEnd)))
  catch _ => pure .directory

def look (path : String) : IO Holding := do
  try
    readHandle (← IO.FS.Handle.mk path .read)
  catch _ => pure .nothing

def lookAll (paths : List String) : IO (List (String × Holding)) :=
  paths.mapM fun path => do pure (path, ← look path)

def readEnvironment : IO Settings.Environment := do
  try
    pure (Settings.Environment.ofBlock (← IO.FS.readFile "/proc/self/environ").toList)
  catch _ =>
    let names := [Command.configVariable, "FILTERSPEC_DATE_FORMAT"]
    names.filterMapM fun name => do
      pure ((← IO.getEnv name).map fun value => (name, value))

partial def readInput (bytes : ByteArray) : IO ByteArray := do
  let more ← (← IO.getStdin).read 65536
  if more.isEmpty then pure bytes else readInput (bytes ++ more)

def findWorkspace (environment : Settings.Environment) (invocation : Invocation) :
    IO Workspace := do
  let seen ← lookAll invocation.request.paths
  let bytes ← if invocation.request.readsInput then readInput .empty else pure .empty
  pure { files := .ofSeen seen, environment, input := .ofBytes bytes }

/-! ### Leaving -/

def writeFiles (before after : FileStore) (paths : List String) : IO Unit :=
  for path in paths do
    if after.heldAt path != before.heldAt path then
      match after.heldAt path with
      | .file content => IO.FS.writeFile path content.text
      | .directory | .nothing => pure ()

def leave (before : Workspace) (paths : List String) (outcome : Outcome) : IO UInt32 := do
  writeFiles before.files outcome.after.files paths
  (← IO.getStdout).putStr outcome.after.printed
  match outcome.complaint with
  | none => pure ()
  | some message => (← IO.getStderr).putStrLn ("Error: " ++ message)
  pure outcome.status.toUInt32

end Program
end RecordFilter

def main (arguments : List String) : IO UInt32 := do
  let environment ← RecordFilter.Program.readEnvironment
  let start : RecordFilter.Command.Workspace := { environment }
  let load := RecordFilter.Settings.dateFormat
  match start.invocation arguments with
  | .error _ => pure (start.run load arguments).status.toUInt32
  | .ok invocation =>
      let request := invocation.request
      let workspace ← RecordFilter.Program.findWorkspace environment invocation
      RecordFilter.Program.leave workspace request.paths (request.run load workspace)
