import UiScript.Compile
import UiScript.Files.Basic
import UiScript.Files.Listing
import UiScript.Settings.Read

/-!
# Hosts

What the commands need of the machine that they run on. A command is written once for all hosts: for
one that is kept in memory, about which statements can be proved, and for the real one.
-/

namespace UiScript

/-- The services of a machine. -/
structure Host (m : Type → Type) where
  workingDir : m String
  isFile : String → m Bool
  isFolder : String → m Bool
  read : String → m (Except FileError (List UInt8))
  makeFolders : String → m (Except FileError Unit)
  write : String → String → m (Except FileError Unit)
  listing : String → m Listing
  modified? : String → m (Option Moment)
  print : String → m Unit
  /-- Prints to the channel for warnings and log entries. -/
  warn : String → m Unit
  /-- Waits for some seconds; false if the wait was interrupted. -/
  sleep : Binary64 → m Bool
  /-- Serves a folder at a host name and a port, and gives the port that was taken. -/
  serve : String → String → Int → m (Except FileError Int)
  stopServing : m Unit

/-- Why a command ends without an exit code. -/
inductive Abort where
  | file (error : FileError)
  | encoding (fault : Text.Utf8.Fault)
  | numeral (error : NumeralError)
  | number (error : NumberError)
  | document (fault : Yaml.Fault)
  | generating (error : Script.GenerateError)
  | reading (fault : SyntaxFault)
  | unknownLevel (name : String)
  deriving Inhabited

def Abort.message : Abort → String
  | .file e => e.message
  | .encoding f => f.message
  | .numeral e => e.message
  | .number e => e.message
  | .document f => f.message
  | .generating e => e.message
  | .reading f => f.message
  | .unknownLevel name => "Unknown level: " ++ Text.quoted name

abbrev Run (m : Type → Type) := ExceptT Abort m

namespace Host

variable {m : Type → Type} [Monad m]

def printLine (host : Host m) (text : String) : m Unit := host.print (text ++ "\n")

def printError (host : Host m) (message : String) : m Unit :=
  host.printLine ("\x7b\"error\": " ++ Json.asciiString message ++ "\x7d")

def printDiagnostics (host : Host m) (ds : List Diagnostic) : m Unit :=
  host.printLine (Diagnostic.listToJson ds)

def warnOf (host : Host m) : List Diagnostic → m Unit
  | [] => return ()
  | d :: ds => do
    host.warn s!"warning: {d.text}\n"
    warnOf host ds

/-- The text of a source file, or nothing after its trouble was printed. -/
def readSource (host : Host m) (path : String) : m (Option String) := do
  if ← host.isFile path then
    match ← host.read path with
    | .error e =>
      host.printError s!"Cannot read {path}: {e.message}"
      return none
    | .ok bytes =>
      match Text.Utf8.decode bytes with
      | .error f =>
        host.printError s!"Cannot read {path}: {f.message}"
        return none
      | .ok text => return some (String.ofList (Text.unifyNewlines text.toList))
  else
    host.printError s!"File not found: {path}"
    return none

/-- Stops a run at trouble with a file. -/
def orAbort {α : Type} (action : m (Except FileError α)) : Run m α := do
  match ← (action : m _) with
  | .ok a => return a
  | .error e => throw (.file e)

/-- Writes a file and makes the folders above it. -/
def save (host : Host m) (path text : String) : Run m Unit := do
  let folder := Path.folder path
  if !folder.isEmpty then orAbort (host.makeFolders folder)
  orAbort (host.write path text)

/-! ### Log entries -/

/-- Prints the log entries that are severe enough. -/
def logAll (host : Host m) (least : Nat) : List Log.Entry → m Unit
  | [] => return ()
  | e :: es => do
    if least ≤ e.level.severity then host.warn (e.text ++ "\n")
    logAll host least es

/-- Runs a computation that logs. A fault with diagnostics is given back; any other one aborts. -/
def logged {α : Type} (host : Host m) (least : Nat) (work : Compile α) :
    Run m (Except (List Diagnostic) α) := do
  let (result, entries) := work.run.run []
  host.logAll least entries
  match result with
  | .ok a => return .ok a
  | .error (.typing ds) => return .error ds
  | .error (.generating e) => throw (.generating e)
  | .error (.grammar f) =>
    match f.diagnostic? with
    | some d => return .error [d]
    | none => throw (.reading f)

end Host

end UiScript
