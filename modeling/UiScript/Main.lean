import UiScript.Command.Run

/-!
# The program

The commands on the real machine. Serving over a network is not part of it.
-/

namespace UiScript

/-- Trouble that the system tells of. -/
def FileTrouble.ofError : IO.Error → FileTrouble
  | .noFileOrDirectory .. | .noSuchThing .. => .missing
  | .permissionDenied .. => .denied
  | .alreadyExists .. => .taken
  | .inappropriateType _ 21 _ => .isFolder
  | .inappropriateType .. => .notFolder
  | _ => .unsupported

/-- Runs an action and keeps its trouble with a path. -/
def guarded {α : Type} (path : String) (action : IO α) : IO (Except FileError α) := do
  try return .ok (← action)
  catch e => return .error { trouble := .ofError e, path }

/-- What the system knows of a path, if something is there. -/
def metadata? (path : String) : IO (Option IO.FS.Metadata) := do
  if path.isEmpty then return none
  try return some (← ((← IO.currentDir) / path).metadata)
  catch _ => return none

def hasType (path : String) (wanted : IO.FS.FileType) : IO Bool := do
  match ← metadata? path with
  | some data => return data.type == wanted
  | none => return false

/-- What stands below a folder, down to some depth. A linked folder is not entered. -/
def realListing : Nat → String → IO Listing
  | 0, _ => return .mk [] []
  | depth + 1, path => do
    let mut files := #[]
    let mut folders := #[]
    let entries ← try ((← IO.currentDir) / path).readDir catch _ => pure #[]
    for entry in entries do
      let below := Path.join path entry.fileName
      if ← hasType below .dir then
        if (← entry.path.symlinkMetadata).type != .symlink then
          folders := folders.push (entry.fileName, ← realListing depth below)
      else
        files := files.push entry.fileName
    return .mk files.toList folders.toList

/-- The milliseconds of a time in seconds; no time at all if that makes no sense. -/
def milliseconds : Binary64 → UInt32
  | .finite false mantissa exponent =>
    let (num, den) := Binary64.scale (mantissa * 1000) 1 exponent
    UInt32.ofNat (min (num / den) 4294967295)
  | _ => 0

def Host.real : Host IO where
  workingDir := return (← IO.currentDir).toString
  isFile path := hasType path .file
  isFolder path := hasType path .dir
  read path := guarded path do return (← IO.FS.readBinFile path).toList
  makeFolders path := guarded path (IO.FS.createDirAll path)
  write path text := guarded path (IO.FS.writeFile path text)
  listing path := do
    if path.isEmpty then return .mk [] [] else realListing 4096 path
  modified? path := do
    return (← metadata? path).map fun data =>
      { seconds := data.modified.sec, nanoseconds := data.modified.nsec.toNat }
  print text := do
    IO.print text
    (← IO.getStdout).flush
  warn text := IO.eprint text
  sleep seconds := do
    IO.sleep (milliseconds seconds)
    return true
  serve _ _ _ := return .error { trouble := .unsupported }
  stopServing := return ()

/-- More looks at a site than anyone waits for. -/
def endlessPolls : Nat := Binary64.twoTo 64

end UiScript

open UiScript in
def main (words : List String) : IO UInt32 := do
  match ← (runArguments Host.real endlessPolls words).run with
  | .ok code => return UInt32.ofNat code
  | .error abort =>
    IO.eprintln abort.message
    return 1
