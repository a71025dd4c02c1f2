/-!
# Log entries
-/

namespace UiScript.Log

inductive Level where
  | debug
  | info
  | warning
  | error
  deriving DecidableEq, Inhabited

def Level.name : Level → String
  | .debug => "DEBUG"
  | .info => "INFO"
  | .warning => "WARNING"
  | .error => "ERROR"

/-- Higher is more severe. -/
def Level.severity : Level → Nat
  | .debug => 10
  | .info => 20
  | .warning => 30
  | .error => 40

/-- A message of one part of the program. -/
structure Entry where
  level : Level
  part : String
  message : String
  deriving DecidableEq, Inhabited

def Entry.text (e : Entry) : String := s!"{e.level.name} lumina.{e.part}: {e.message}"

/-- The least severity of each name of a level. -/
def severityNames : List (String × Nat) :=
  [("CRITICAL", 50), ("FATAL", 50), ("ERROR", 40), ("WARN", 30), ("WARNING", 30), ("INFO", 20),
    ("DEBUG", 10), ("NOTSET", 0)]

end UiScript.Log
