import UiScript.Glob
import UiScript.Number.Binary64

/-!
# Settings of a project
-/

namespace UiScript

/-- What a project sets for all its files. -/
structure Settings where
  typecheck : Bool := false
  strict : Bool := false
  title : String := "Lumina App"
  outputDir : String := "dist"
  /-- Patterns for paths below the built folder; none lets everything through. -/
  included : List String := []
  excluded : List String := []
  /-- The name of the least level that is logged. -/
  logLevel : String := "WARNING"
  /-- The seconds between two looks at the sources. -/
  watchInterval : Binary64 := .ofRatio false 1 1
  /-- The file that the settings come from. -/
  source : Option String := none
  deriving Inhabited

/-- A path is let through if some pattern includes it and none excludes it. -/
def Settings.accepts (s : Settings) (path : String) : Bool :=
  (s.included.isEmpty || s.included.any (Glob.matches · path)) &&
    !s.excluded.any (Glob.matches · path)

end UiScript
