import UiScript.Host.Basic
import UiScript.Site.Sources

/-!
# Building a site

Every source is compiled into its page. A source with a fault is reported and left, and the others
are built all the same.
-/

namespace UiScript.Site

structure Plan where
  folder : String
  outputDir : String
  settings : Settings := {}
  options : Compile.Options := {}
  /-- The least severity that is logged. -/
  logged : Nat := 30
  deriving Inhabited

variable {m : Type → Type} [Monad m]

/-- The sources that stand in the folder now. -/
def Plan.sources (plan : Plan) (host : Host m) : m (List Below) := do
  return Site.sources plan.settings (← host.listing plan.folder)

/-- Builds one page; false after a fault was reported. -/
def Plan.buildOne (plan : Plan) (host : Host m) (source : Below) : Run m Bool := do
  let path := source.path plan.folder
  let page := pagePath plan.outputDir source
  match ← host.readSource path with
  | none => return false
  | some text =>
    match ← host.logged plan.logged (Compile.source text path plan.options) with
    | .error ds =>
      host.printDiagnostics ds
      return false
    | .ok compiled =>
      host.save page compiled.page.html
      host.printLine s!"Compiled: {path} -> {page}"
      host.logAll plan.logged [{ level := .debug, part := "cli", message := s!"rebuilt {page}" }]
      return true

/-- Builds some pages; gives the numbers of those that were built and of those that failed. -/
def Plan.buildEach (plan : Plan) (host : Host m) : List Below → Run m (Nat × Nat)
  | [] => return (0, 0)
  | source :: more => do
    let built ← plan.buildOne host source
    let (good, bad) ← plan.buildEach host more
    return if built then (good + 1, bad) else (good, bad + 1)

def Plan.buildAll (plan : Plan) (host : Host m) : Run m (Nat × Nat) := do
  let sources ← (plan.sources host : m _)
  plan.buildEach host sources

def Plan.whenFolder (plan : Plan) (host : Host m) (go : Run m Nat) : Run m Nat := do
  if ← host.isFolder plan.folder then go
  else
    host.printError s!"Not a directory: {plan.folder}"
    return 1

/-- Builds a site; the exit code tells whether a source failed. -/
def Plan.build (plan : Plan) (host : Host m) : Run m Nat :=
  plan.whenFolder host do
    let (good, bad) ← plan.buildAll host
    host.printLine s!"{good} file(s) built, {bad} failed"
    return if 0 < bad then 1 else 0

end UiScript.Site
