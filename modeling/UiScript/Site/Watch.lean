import UiScript.Site.Build

/-!
# Watching a site

The sources are looked at again and again, and those that were written meanwhile are built anew.
-/

namespace UiScript.Site

variable {m : Type → Type} [Monad m]

/-- When each source was written that was seen so far. -/
abbrev Seen := List (Below × Moment)

/-- Notes when the sources were written; gives those for which that is news. A source that is not
there is passed over. -/
def Plan.note (plan : Plan) (host : Host m) : Seen → List Below → m (Seen × List Below)
  | seen, [] => return (seen, [])
  | seen, source :: more => do
    match ← host.modified? (source.path plan.folder) with
    | none => plan.note host seen more
    | some time =>
      if seen.lookup source == some time then plan.note host seen more
      else
        let (seen, changed) ← plan.note host ((source, time) :: seen) more
        return (seen, source :: changed)

/-- Looks at the sources once and builds those that have changed. -/
def Plan.poll (plan : Plan) (host : Host m) (seen : Seen) : Run m Seen := do
  let sources ← (plan.sources host : m _)
  let (seen, changed) ← (plan.note host seen sources : m _)
  if !changed.isEmpty then
    host.printLine s!"\n{changed.length} file(s) changed, rebuilding..."
    let _ ← plan.buildEach host changed
  return seen

/-- Waits and looks in turn until a wait is interrupted, at most so many times. -/
def Plan.pollFor (plan : Plan) (host : Host m) (interval : Binary64) : Nat → Seen → Run m Unit
  | 0, _ => return ()
  | n + 1, seen => do
    if ← host.sleep interval then
      plan.pollFor host interval n (← plan.poll host seen)
    else
      host.printLine "\nWatch stopped."

/-- Does something at the end, also if the run is aborted. -/
def ensuring {α : Type} (go : Run m α) (last : m Unit) : Run m α := ExceptT.mk do
  let result ← go.run
  last
  return result

structure Server where
  host : String := "127.0.0.1"
  port : Int
  deriving Inhabited

/-- Builds a site, watches it and serves the output if that is asked for. -/
def Plan.watch (plan : Plan) (host : Host m) (interval : Binary64) (server : Option Server)
    (polls : Nat) : Run m Nat :=
  plan.whenFolder host do
    host.printLine s!"Watching {plan.folder} for changes... (Ctrl+C to stop)"
    let _ ← plan.buildAll host
    let go : Run m Nat := do
      let sources ← (plan.sources host : m _)
      let (seen, _) ← (plan.note host [] sources : m _)
      plan.pollFor host interval polls seen
      return 0
    match server with
    | none => go
    | some s =>
      match ← (host.serve plan.outputDir s.host s.port : m _) with
      | .error e =>
        host.printError s!"Cannot serve on port {s.port}: {e.message}"
        return 1
      | .ok port =>
        host.printLine s!"Serving {plan.outputDir} at http://{s.host}:{port}"
        ensuring go host.stopServing

end UiScript.Site
