import UiScript.Host.Basic

/-!
# Loading settings

Settings come from a file that is named, or else from the nearest settings file in a folder or above
it. Without one the defaults hold.
-/

namespace UiScript.Settings

variable {m : Type → Type} [Monad m]

def firstFile (host : Host m) : List String → m (Option String)
  | [] => return none
  | path :: more => do
    if ← host.isFile path then return some path else firstFile host more

/-- The nearest settings file in a folder or above it. -/
def find? (host : Host m) (start : String) : m (Option String) := do
  firstFile host (places (Path.absolute (← host.workingDir) start))

def loadFile (host : Host m) (path : String) : m (Except ReadError Settings) := do
  match ← host.read path with
  | .ok bytes => return ofFile path bytes
  | .error e =>
    return .error (.invalid (.settingsError ("Cannot read config file: " ++ e.message) path))

def load (host : Host m) (path : Option String) (start : String) :
    m (Except ReadError Settings) := do
  match path with
  | some path => loadFile host path
  | none =>
    match ← find? host start with
    | some path => loadFile host path
    | none => return .ok {}

end UiScript.Settings
