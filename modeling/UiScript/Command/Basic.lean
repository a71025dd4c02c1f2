import UiScript.Command.Arguments
import UiScript.Site.Watch

/-!
# Commands

What the program can be asked to do, and how a command line asks for it.
-/

namespace UiScript

namespace Command

/-- The part of a page that is wanted. -/
inductive Part where
  | html
  | script
  | css
  deriving DecidableEq, Inhabited

structure Switches where
  typecheck : Bool := false
  strict : Bool := false
  deriving DecidableEq, Inhabited

end Command

inductive Command where
  | compile (file : String) (part : Command.Part) (switches : Command.Switches)
      (output title : Option String)
  | check (file : String) (asJson : Bool)
  | tokens (file : String)
  | tree (file : String)
  | render (file component : String) (props : Option String)
  | build (folder : String) (switches : Command.Switches) (output : Option String)
  | watch (folder : String) (switches : Command.Switches) (output : Option String)
      (interval : Option Binary64) (server : Option Site.Server)
  deriving Inhabited

structure Invocation where
  settingsPath : Option String := none
  logLevel : Option String := none
  /-- Without a command the usage is shown. -/
  command : Option Command := none
  deriving Inhabited

namespace Command

/-! ### Usages -/

def programName : String := "lumina"

def versionText : String := "0.1.0"

def outputFlag : Flag := { spellings := ["-o", "--output"], effect := .value .text }

def switchFlag (name : String) (excludes : Option String := none) : Flag :=
  { spellings := [name], effect := .switch, excludes }

def valueFlag (name : String) (form : Form := .text) : Flag :=
  { spellings := [name], effect := .value form }

def usageOf (name operand : String) (flags : List Flag) : Usage :=
  { program := programName ++ " " ++ name, operand := { name := operand }
    flags := helpFlag :: flags }

def siteFlags : List Flag := [outputFlag, switchFlag "--typecheck", switchFlag "--strict"]

def usages : List (String × Usage) := [
  ("compile", usageOf "compile" "file" [
    outputFlag,
    switchFlag "--js-only" (some "--css-only"),
    switchFlag "--css-only" (some "--js-only"),
    switchFlag "--typecheck",
    switchFlag "--strict",
    valueFlag "--title"]),
  ("check", usageOf "check" "file" [valueFlag "--format" (.choice ["text", "json"])]),
  ("tokens", usageOf "tokens" "file" []),
  ("ast", usageOf "ast" "file" []),
  ("render", usageOf "render" "file" [
    { spellings := ["-c", "--component"], effect := .value .text, required := true },
    valueFlag "--props"]),
  ("build", usageOf "build" "directory" siteFlags),
  ("watch", usageOf "watch" "directory" (siteFlags ++ [
    valueFlag "--interval" .float,
    valueFlag "--port" .integer,
    valueFlag "--host"]))
]

/-- The usage of the whole program, whose operand is the name of a command. -/
def mainUsage : Usage where
  program := programName
  operand :=
    { name := "command", optional := true, takesRest := true, allowed := usages.map Prod.fst }
  flags := [
    helpFlag,
    { spellings := ["--version"], effect := .version },
    valueFlag "--config",
    valueFlag "--log-level" (.choice ["DEBUG", "INFO", "WARNING", "ERROR"])]

/-! ### From arguments to commands -/

def switchesOf (found : Found) : Switches :=
  { typecheck := found.isOn "--typecheck", strict := found.isOn "--strict" }

def intervalOf (found : Found) : Option Binary64 :=
  (found.value? "--interval").bind fun text => (Numeral.readFloat text).toOption

def serverOf (found : Found) : Option Site.Server := do
  let text ← found.value? "--port"
  let port ← (Numeral.readInteger text).toOption
  return { host := (found.value? "--host").getD "127.0.0.1", port }

def ofFound (name : String) (found : Found) : Option Command := do
  let (operand, _) ← found.operand
  let output := found.value? "--output"
  match name with
  | "compile" =>
    let part := if found.isOn "--js-only" then Part.script
      else if found.isOn "--css-only" then .css else .html
    return .compile operand part (switchesOf found) output (found.value? "--title")
  | "check" => return .check operand (found.value? "--format" == some "json")
  | "tokens" => return .tokens operand
  | "ast" => return .tree operand
  | "render" =>
    return .render operand ((found.value? "--component").getD "") (found.value? "--props")
  | "build" => return .build operand (switchesOf found) output
  | "watch" =>
    return .watch operand (switchesOf found) output (intervalOf found) (serverOf found)
  | _ => none

end Command

open Command in
/-- Reads a whole command line. Words that fit nowhere are an error, after all others. -/
def Invocation.ofArguments (words : List String) : Except Halt Invocation := do
  let found ← mainUsage.read words
  let (command, extra) ←
    match found.operand with
    | none => pure (none, [])
    | some (name, rest) =>
      match usages.lookup name with
      | none => pure (none, [])
      | some usage => do
        let inner ← usage.read rest
        pure (ofFound name inner, inner.extra)
  let extra := found.extra ++ extra
  if extra.isEmpty then
    return {
      settingsPath := found.value? "--config"
      logLevel := found.value? "--log-level"
      command }
  else throw (.wrong mainUsage ("unrecognized arguments: " ++ String.intercalate " " extra))

end UiScript
