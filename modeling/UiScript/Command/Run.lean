import UiScript.Command.Basic
import UiScript.Render
import UiScript.Settings.Load
import UiScript.Syntax.Dump

/-!
# Running commands

Each command reads a source, does its work and prints the result. A fault of the source is printed
as JSON, and the exit code tells of it.
-/

namespace UiScript

namespace Command

variable {m : Type → Type} [Monad m]

/-- What holds for a run: the settings and the least severity that is logged. -/
structure Context where
  settings : Settings
  logged : Nat
  deriving Inhabited

variable (c : Context) (host : Host m)

def nonempty? (text : Option String) : Option String := text.filter (!·.isEmpty)

/-- Switches add to the settings. -/
def Context.options (switches : Switches) (title : Option String := none) : Compile.Options :=
  { typecheck := switches.typecheck || c.settings.typecheck
    strict := switches.strict || c.settings.strict
    title := (nonempty? title).getD c.settings.title }

/-- Reads a source and works on it. Without a source, and after a fault of it that was printed, the
exit code is one. -/
def Context.withSource {α : Type} (file : String) (work : String → Compile α)
    (report : α → Run m Nat) : Run m Nat := do
  match ← host.readSource file with
  | none => return 1
  | some text =>
    match ← host.logged c.logged (work text) with
    | .error ds =>
      host.printDiagnostics ds
      return 1
    | .ok a => report a

/-! ### The commands -/

def Context.compile (file : String) (part : Part) (switches : Switches)
    (output title : Option String) : Run m Nat :=
  c.withSource host file (Compile.source · file (c.options switches title)) fun compiled => do
    host.warnOf compiled.diagnostics
    let text :=
      match part with
      | .html => compiled.page.html
      | .script => compiled.page.script
      | .css => compiled.page.css
    match nonempty? output with
    | some path =>
      host.save path text
      host.printLine s!"Compiled: {file} -> {path}"
    | none => host.print text
    return 0

def Context.check (file : String) (asJson : Bool) : Run m Nat :=
  let work (text : String) : Compile (List Diagnostic) := do
    Compile.diagnostics (← Compile.program text file)
  c.withSource host file work fun ds => do
    if asJson then host.printDiagnostics ds
    else if ds.isEmpty then host.printLine "Type checking passed"
    else
      host.printLine (Text.unlines ("Type checking failed:" :: ds.map fun d => "  " ++ d.text))
    return if ds.isEmpty then 0 else 1

def Context.tokens (file : String) : Run m Nat :=
  c.withSource host file (Compile.tokens · file) fun ts => do
    host.printLine (Json.indented (.list (ts.map (·.toValue))))
    return 0

def Context.tree (file : String) : Run m Nat :=
  c.withSource host file (Compile.program · file) fun p => do
    host.printLine (Json.indented p.toValue)
    return 0

/-- The props that a text gives, or nothing after its trouble was printed. -/
def readProps (text : Option String) : Run m (Option (Dict Value)) := do
  match nonempty? text with
  | none => return some []
  | some text =>
    match Json.read text.toList with
    | .ok (.dict props) => return some props
    | .ok _ =>
      host.printError "--props must be a JSON object"
      return none
    | .error (.malformed cause offset) =>
      host.printError ("Invalid --props JSON: " ++ Json.placedMessage text.toList cause offset)
      return none
    | .error (.numeral e) => throw (.numeral e)

/-- Renders a component and prints it. -/
def Context.showComponent (component : String) (props : Dict Value) (p : Program) :
    Run m Nat := do
  match p.render component props with
  | .ok html =>
    let message := s!"rendered {component} ({html.length} chars)"
    host.logAll c.logged [{ level := .debug, part := "ssr", message }]
    host.printLine html
    return 0
  | .error (.number e) => throw (.number e)
  | .error e =>
    host.printError e.message
    return 1

def Context.render (file component : String) (props : Option String) : Run m Nat := do
  match ← host.readSource file with
  | none => return 1
  | some text =>
    match ← readProps host props with
    | none => return 1
    | some props =>
      match ← host.logged c.logged (Compile.program text file) with
      | .error ds =>
        host.printDiagnostics ds
        return 1
      | .ok p => c.showComponent host component props p

def Context.plan (folder : String) (switches : Switches) (output : Option String) :
    Site.Plan :=
  { folder
    outputDir := (nonempty? output).getD c.settings.outputDir
    settings := c.settings
    options := c.options switches
    logged := c.logged }

/-- Runs a command; a site is looked at so many times at most. -/
def Context.run (polls : Nat) : Command → Run m Nat
  | .compile file part switches output title => c.compile host file part switches output title
  | .check file asJson => c.check host file asJson
  | .tokens file => c.tokens host file
  | .tree file => c.tree host file
  | .render file component props => c.render host file component props
  | .build folder switches output => (c.plan folder switches output).build host
  | .watch folder switches output interval server =>
    (c.plan folder switches output).watch host (interval.getD c.settings.watchInterval) server polls

end Command

variable {m : Type → Type} [Monad m]

open Command in
def Invocation.run (i : Invocation) (host : Host m) (polls : Nat) : Run m Nat := do
  match i.command with
  | none =>
    host.print mainUsage.text
    return 1
  | some command =>
    match ← (Settings.load host i.settingsPath "." : m _) with
    | .error (.invalid d) =>
      host.printDiagnostics [d]
      return 1
    | .error (.encoding f) => throw (.encoding f)
    | .error (.numeral e) => throw (.numeral e)
    | .error (.number e) => throw (.number e)
    | .error (.document f) => throw (.document f)
    | .ok settings =>
      let level := i.logLevel.getD settings.logLevel
      match Log.severityNames.lookup level with
      | none => throw (.unknownLevel level)
      | some logged => Context.run { settings, logged } host polls command

open Command in
/-- Runs a command line; gives the exit code. -/
def runArguments (host : Host m) (polls : Nat) (words : List String) : Run m Nat := do
  match Invocation.ofArguments words with
  | .ok i => i.run host polls
  | .error (.help usage) =>
    host.print usage.text
    return 0
  | .error .version =>
    host.printLine s!"{programName} {versionText}"
    return 0
  | .error (.wrong usage message) =>
    host.warn (usage.text ++ s!"{usage.program}: error: {message}\n")
    return 2

end UiScript
