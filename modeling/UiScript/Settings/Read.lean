import UiScript.Diagnostic
import UiScript.Json.Reader
import UiScript.Path
import UiScript.Settings.Basic
import UiScript.Settings.Setting
import UiScript.Text.Case
import UiScript.Text.Utf8

/-!
# Reading settings

A settings file holds a mapping in JSON or YAML. Keys that are not known are left alone.
-/

namespace UiScript.Settings

/-- Why settings cannot be read: they are wrong, or the file holds no text, a number beyond the
limits or a scalar without a value. -/
inductive ReadError where
  | invalid (diagnostic : Diagnostic)
  | encoding (fault : Text.Utf8.Fault)
  | numeral (error : NumeralError)
  | number (error : NumberError)
  | document (fault : Yaml.Fault)
  deriving Inhabited

/-! ### Entries -/

/-- Only a list gives patterns; all else leaves them as they are. -/
def asPatterns (current : List String) (v : Setting) : Except ValueError (List String) :=
  match v.items with
  | some texts => texts.mapM id
  | none => .ok current

/-- Takes one entry over into the settings. -/
def put (s : Settings) (key : String) (v : Setting) : Except ValueError Settings :=
  match key with
  | "typecheck" => .ok { s with typecheck := v.isOn }
  | "strict" => .ok { s with strict := v.isOn }
  | "title" => do return { s with title := ← v.text }
  | "output_dir" => do return { s with outputDir := ← v.text }
  | "include" => do return { s with included := ← asPatterns s.included v }
  | "exclude" => do return { s with excluded := ← asPatterns s.excluded v }
  | "log_level" => do return { s with logLevel := Text.upper (← v.text) }
  | "watch_interval" => do return { s with watchInterval := ← v.seconds }
  | _ => .ok s

def knownKeys : List String :=
  ["typecheck", "strict", "title", "output_dir", "include", "exclude", "log_level",
    "watch_interval"]

/-- An integer beyond the floating point numbers is not blamed on the file. -/
def blame (path : String) : ValueError → ReadError
  | .number .integerTooLarge => .number .integerTooLarge
  | e => .invalid (.settingsError ("Invalid config value: " ++ e.message) path)

def ofEntries (entries : Dict Setting) (path : String) : Except ReadError Settings :=
  let step (s : Settings) (key : String) : Except ValueError Settings :=
    match entries.get? key with
    | some v => s.put key v
    | none => .ok s
  (knownKeys.foldlM step {}).mapError (blame path)

/-- The settings that a mapping gives. -/
def ofDict (d : Dict Value) (path : String) : Except ReadError Settings :=
  ofEntries (d.map fun (key, v) => (key, Setting.ofValue v)) path

/-! ### Files -/

/-- The diagnostic of a file that is not well formed. -/
def malformed (path reason : String) : ReadError :=
  .invalid (.settingsError ("Malformed config file: " ++ reason) path)

/-- The diagnostic of a file that holds something else than a mapping. -/
def noMapping (path : String) : ReadError :=
  .invalid (.settingsError "Config file must contain a mapping at the top level" path)

def jsonEntries (path : String) (text : List Char) : Except ReadError (Dict Setting) :=
  match Json.read text with
  | .ok .null => .ok []
  | .ok (.dict entries) => .ok (entries.map fun (key, v) => (key, Setting.ofValue v))
  | .ok _ => .error (noMapping path)
  | .error (.malformed cause offset) =>
    .error (malformed path (Json.placedMessage text cause offset))
  | .error (.numeral e) => .error (.numeral e)

def yamlEntries (path : String) (text : List Char) : Except ReadError (Dict Setting) :=
  match Yaml.Document.ofText text with
  | .error .malformed => .error (malformed path Yaml.Fault.malformed.message)
  | .error fault => .error (.document fault)
  | .ok doc =>
    match doc.textEntries?, doc.datum doc.root with
    | some entries, _ => .ok (entries.map fun (key, id) => (key, Setting.ofNode doc id))
    | none, .null => .ok []
    | none, _ => .error (noMapping path)

/-- The settings that a file holds; its name tells whether it is in JSON or in YAML. -/
def ofFile (path : String) (bytes : List UInt8) : Except ReadError Settings := do
  let text ← (Text.Utf8.decode bytes).mapError .encoding
  let text := Text.unifyNewlines text.toList
  let entries ←
    if path.endsWith ".json" then jsonEntries path text else yamlEntries path text
  return { ← ofEntries entries path with source := some path }

/-- The names of settings files; the first one wins. -/
def fileNames : List String := [".luminarc.yml", ".luminarc.yaml", ".luminarc.json"]

/-- A folder and those above it, nearest first. The first argument bounds their number. -/
def foldersUp : Nat → String → List String
  | 0, _ => []
  | n + 1, path =>
    let parent := Path.folder path
    path :: if parent == path then [] else foldersUp n parent

/-- The places of a settings file for a folder given from the root, best first. -/
def places (start : String) : List String :=
  (foldersUp (start.length + 1) start).flatMap fun dir => fileNames.map (Path.join dir)

end UiScript.Settings
