/-!
# Places in a source
-/

namespace UiScript

/-- A place in a source file; lines and columns count from one. -/
structure Place where
  line : Nat
  column : Nat
  file : String := "<stdin>"
  deriving DecidableEq, Inhabited

def Place.text (p : Place) : String := s!"{p.file}:{p.line}:{p.column}"

end UiScript
