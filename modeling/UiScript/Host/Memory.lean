import UiScript.Files.Disk
import UiScript.Host.Basic

/-!
# A host in memory

Files stand on a disk in memory, what is printed is collected, and a wait lets the next planned
change of the disk happen. When no change is left, the wait is interrupted.
-/

namespace UiScript

/-- What happens to the disk during a wait. -/
structure Change where
  writes : List (String × Item) := []
  removals : List String := []
  deriving Inhabited

inductive ServerCall where
  | start (folder host : String) (port : Int)
  | stop
  deriving DecidableEq, Inhabited

def Memory.startTime : Int := 1000000000

structure Memory where
  disk : Disk
  printed : String := ""
  warned : String := ""
  changes : List Change := []
  waits : List Binary64 := []
  /-- When a file counts as written that is written at a path during the wait of a number. -/
  clock : Nat → String → Int := fun n _ => Memory.startTime + n
  calls : List ServerCall := []
  /-- The port cannot be taken. -/
  busy : Bool := false
  deriving Inhabited

namespace Memory

/-- The port that is taken when any will do. -/
def freePort : Int := 40000

def stamped (time : Int) : Item → Item
  | .file bytes _ => .file bytes time
  | item => item

def apply (time : String → Int) (disk : Disk) (c : Change) : Disk :=
  let put (d : Disk) (entry : String × Item) : Disk :=
    d.place entry.1 (stamped (time entry.1) entry.2)
  let written := c.writes.foldl put disk
  c.removals.foldl Disk.remove written

def look {α : Type} (f : Disk → α) : StateM Memory α := return f (← get).disk

def change (action : Disk.Action) : StateM Memory (Except FileError Unit) := do
  let (result, disk) := action.run.run (← get).disk
  modify fun s => { s with disk }
  return result

def sleep (seconds : Binary64) : StateM Memory Bool := do
  let s ← get
  let waits := s.waits ++ [seconds]
  match s.changes with
  | [] =>
    set { s with waits }
    return false
  | c :: changes =>
    set { s with waits, changes, disk := apply (s.clock waits.length) s.disk c }
    return true

def serve (folder host : String) (port : Int) : StateM Memory (Except FileError Int) := do
  let s ← get
  if s.busy then return .error { trouble := .addressInUse }
  else
    set { s with calls := s.calls ++ [ServerCall.start folder host port] }
    return .ok (if port == 0 then freePort else port)

end Memory

def Host.memory : Host (StateM Memory) where
  workingDir := Memory.look (·.workingDir)
  isFile path := Memory.look (·.isFile path)
  isFolder path := Memory.look (·.isFolder path)
  read path := Memory.look (·.read path)
  makeFolders path := Memory.change (Disk.makeFolders path)
  write path text :=
    Memory.change (Disk.write path (Text.Utf8.encode text) Memory.startTime)
  listing path := Memory.look (·.listing path)
  modified? path := Memory.look fun disk =>
    (disk.modified? path).map fun time => { seconds := time }
  print text := modify fun s => { s with printed := s.printed ++ text }
  warn text := modify fun s => { s with warned := s.warned ++ text }
  sleep := Memory.sleep
  serve := Memory.serve
  stopServing := modify fun s => { s with calls := s.calls ++ [ServerCall.stop] }

end UiScript
